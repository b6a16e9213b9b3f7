import Mathlib.Data.List.Basic

/-!
# Cleaning slash-separated paths

`path.Clean` drops empty segments and `.`, and lets `..` take back the segment
before it. `path.Join` joins its non-empty arguments by slashes and cleans the
result.

* `clean`, `join`: the two functions, on characters.
* `clean_eq_self_iff`: a relative path that begins with a plain segment is its
  own cleaned form exactly when every segment of it is plain.
-/

namespace CleanPath

abbrev Path := List Char

def segments (p : Path) : List Path := p.splitOn '/'

/-- One more segment, with the segments kept so far in `out`, last one first. At
the root there is nothing to take back. -/
def push (rooted : Bool) (out : List Path) (seg : Path) : List Path :=
  if seg = [] ∨ seg = ['.'] then out
  else if seg = ['.', '.'] then
    match out with
    | [] => if rooted then [] else [seg]
    | last :: rest => if last = ['.', '.'] then seg :: out else rest
  else seg :: out

/-- `path.Clean`. -/
def clean (p : Path) : Path :=
  let rooted := p.head? = some '/'
  let kept := ['/'].intercalate ((segments p).foldl (push rooted) []).reverse
  if rooted then '/' :: kept else if kept = [] then ['.'] else kept

/-- `path.Join`. -/
def join (elem : List Path) : Path :=
  match elem.filter (· ≠ []) with
  | [] => []
  | elem => clean (['/'].intercalate elem)

/-- The segment names a child of what is before it. -/
def Plain (seg : Path) : Prop := seg ≠ [] ∧ seg ≠ ['.'] ∧ seg ≠ ['.', '.']

instance (seg : Path) : Decidable (Plain seg) := inferInstanceAs (Decidable (_ ∧ _ ∧ _))

example : clean "a//b/./c/../..".toList = "a".toList := by decide

example : join ["stream".toList, "../../x".toList] = "../x".toList := by decide

namespace CleanPathLemmas

theorem notMem_of_mem_splitOn {a : Char} {p seg : Path} (h : seg ∈ p.splitOn a) : a ∉ seg := by
  induction p generalizing seg with
  | nil =>
    obtain rfl : seg = [] := by simpa using h
    exact List.not_mem_nil
  | cons c p ih =>
    rw [List.splitOn_cons_eq_if_modifyHead] at h
    split at h
    · rcases List.mem_cons.mp h with rfl | h
      · exact List.not_mem_nil
      · exact ih h
    · next hc =>
      cases hp : p.splitOn a with
      | nil => exact absurd hp (List.splitOn_ne_nil a p)
      | cons first rest =>
        rw [hp, List.modifyHead_cons] at h
        rcases List.mem_cons.mp h with rfl | h
        · have hfirst : a ∉ first := ih (hp ▸ List.mem_cons_self)
          intro hmem
          exact (List.mem_cons.mp hmem).elim (fun he => hc (beq_iff_eq.mpr he.symm)) hfirst
        · exact ih (hp ▸ List.mem_cons_of_mem first h)

theorem push_plain (rooted : Bool) (out : List Path) {seg : Path} (h : Plain seg) :
    push rooted out seg = seg :: out := by
  simp [push, h.1, h.2.1, h.2.2]

theorem foldl_push_plain (rooted : Bool) {segs : List Path} (out : List Path)
    (h : ∀ seg ∈ segs, Plain seg) : segs.foldl (push rooted) out = segs.reverse ++ out := by
  induction segs generalizing out with
  | nil => rfl
  | cons seg segs ih =>
    have hseg := h seg List.mem_cons_self
    rw [List.foldl_cons, push_plain rooted out hseg,
      ih _ fun s hs => h s (List.mem_cons_of_mem seg hs)]
    simp

theorem length_push_le (rooted : Bool) (out : List Path) (seg : Path) :
    (push rooted out seg).length ≤ out.length + 1 := by
  unfold push
  grind

theorem length_foldl_le (rooted : Bool) (segs : List Path) (out : List Path) :
    (segs.foldl (push rooted) out).length ≤ out.length + segs.length := by
  induction segs generalizing out with
  | nil => exact Nat.le_refl _
  | cons seg segs ih =>
    have hpush := length_push_le rooted out seg
    have hrest := ih (push rooted out seg)
    simp only [List.foldl_cons, List.length_cons]
    omega

/-- Behind a plain segment, one that is not plain is not kept. -/
theorem length_push_of_not_plain (rooted : Bool) {last seg : Path} (rest : List Path)
    (hlast : Plain last) (hseg : ¬ Plain seg) :
    (push rooted (last :: rest) seg).length ≤ (last :: rest).length := by
  unfold push
  split
  · exact Nat.le_refl _
  · next hdot =>
    have hup : seg = ['.', '.'] := by
      by_contra hup
      exact hseg ⟨fun h => hdot (.inl h), fun h => hdot (.inr h), hup⟩
    simp only [if_pos hup, if_neg hlast.2.2]
    exact Nat.le_succ _

theorem length_foldl_lt (rooted : Bool) {segs : List Path} {last : Path} (rest : List Path)
    (hlast : Plain last) (h : ¬ ∀ seg ∈ segs, Plain seg) :
    (segs.foldl (push rooted) (last :: rest)).length < (last :: rest).length + segs.length := by
  induction segs generalizing last rest with
  | nil => exact absurd (fun _ hs => absurd hs List.not_mem_nil) h
  | cons seg segs ih =>
    rw [List.foldl_cons]
    by_cases hseg : Plain seg
    · have hsegs : ¬ ∀ s ∈ segs, Plain s := fun hall => h (List.forall_mem_cons.mpr ⟨hseg, hall⟩)
      rw [push_plain rooted _ hseg]
      have := ih (last :: rest) hseg hsegs
      simp only [List.length_cons] at this ⊢
      omega
    · have hpush := length_push_of_not_plain rooted rest hlast hseg
      have hfold := length_foldl_le rooted segs (push rooted (last :: rest) seg)
      rw [List.length_cons (a := seg)]
      omega

theorem mem_push {rooted : Bool} {out : List Path} {seg s : Path}
    (h : s ∈ push rooted out seg) : s ∈ out ∨ s = seg := by
  unfold push at h
  grind

theorem mem_foldl_push {rooted : Bool} {segs out : List Path} {s : Path}
    (h : s ∈ segs.foldl (push rooted) out) : s ∈ out ∨ s ∈ segs := by
  induction segs generalizing out with
  | nil => exact .inl h
  | cons seg segs ih =>
    rcases ih h with h | h
    · rcases mem_push h with h | rfl
      · exact .inl h
      · exact .inr List.mem_cons_self
    · exact .inr (List.mem_cons_of_mem seg h)

/-- A path that begins with a non-empty segment is not rooted. -/
theorem not_rooted {p first : Path} {rest : List Path} (h : segments p = first :: rest)
    (hfirst : first ≠ []) : p.head? ≠ some '/' := by
  cases p with
  | nil => simp
  | cons c p =>
    rintro ⟨⟩
    rw [segments, List.splitOn_cons_eq_if_modifyHead, if_pos (beq_self_eq_true _)] at h
    exact hfirst (List.cons.inj h).1.symm

theorem clean_relative {p : Path} (h : p.head? ≠ some '/') :
    clean p =
      if ['/'].intercalate ((segments p).foldl (push false) []).reverse = [] then ['.']
      else ['/'].intercalate ((segments p).foldl (push false) []).reverse := by
  simp [clean, h]

theorem segments_intercalate {segs : List Path} (hne : segs ≠ []) (h : ∀ seg ∈ segs, '/' ∉ seg) :
    segments (['/'].intercalate segs) = segs :=
  List.splitOn_intercalate '/' h hne

end CleanPathLemmas

open CleanPathLemmas

/-- A relative path that begins with a plain segment is clean exactly when it is
plain all through. -/
theorem clean_eq_self_iff {p first : Path} {rest : List Path} (h : segments p = first :: rest)
    (hfirst : Plain first) : clean p = p ↔ ∀ seg ∈ segments p, Plain seg := by
  rw [clean_relative (not_rooted h hfirst.1)]
  have hp : ['/'].intercalate (segments p) = p := List.intercalate_splitOn '/'
  constructor
  · intro hclean
    by_contra hplain
    have hrest : ¬ ∀ seg ∈ rest, Plain seg := by
      intro hall
      exact hplain (h ▸ List.forall_mem_cons.mpr ⟨hfirst, hall⟩)
    have hlt := length_foldl_lt false [] hfirst hrest
    have hslash : ∀ seg ∈ (segments p).foldl (push false) [], '/' ∉ seg := by
      intro seg hseg
      rcases mem_foldl_push hseg with hnil | hseg
      · exact absurd hnil List.not_mem_nil
      · exact notMem_of_mem_splitOn hseg
    have hfold : (segments p).foldl (push false) [] = rest.foldl (push false) [first] := by
      rw [h, List.foldl_cons, push_plain false [] hfirst]
    rw [← hfold] at hlt
    generalize (segments p).foldl (push false) [] = kept at hclean hlt hslash
    split at hclean
    · -- the path `.` begins with no plain segment
      have hdot : segments ['.'] = [['.']] := by decide
      rw [← hclean, hdot] at h
      exact hfirst.2.1 (List.cons.inj h).1.symm
    · next hne =>
      have hkept : kept.reverse ≠ [] := by
        intro hnil
        rw [hnil] at hne
        exact hne rfl
      -- a segment was lost
      have hsegs := segments_intercalate hkept fun seg hs => hslash seg (List.mem_reverse.mp hs)
      rw [hclean, h] at hsegs
      have hlen := congrArg List.length hsegs
      simp only [List.length_cons, List.length_nil, List.length_reverse] at hlen hlt
      omega
  · intro hplain
    have hne : p ≠ [] := by
      rintro rfl
      rw [segments, List.splitOn_nil] at h
      exact hfirst.1 (List.cons.inj h).1.symm
    rw [foldl_push_plain false [] hplain, List.append_nil, List.reverse_reverse, hp, if_neg hne]

end CleanPath
