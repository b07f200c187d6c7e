import Mathlib.Algebra.GroupWithZero.Nat
import Mathlib.Data.List.Infix
import Mathlib.Algebra.BigOperators.Group.List.Basic
import MpcServer.Lib.Method

/-!
# Rust's `str`

Slices of a `str` are taken at byte offsets: `&s[a..b]` panics when an
offset lies outside the text or inside a character. The functions here count
the UTF-8 bytes of the characters and say `none` where Rust panics.
-/

namespace Rust

/-- `s.len()`: the length in UTF-8 bytes. -/
def byteLength (s : String) : Nat := (s.toList.map Char.utf8Size).sum

@[simp] theorem byteLength_append (s t : String) :
    byteLength (s ++ t) = byteLength s + byteLength t := by
  simp [byteLength]

@[simp] theorem byteLength_empty : byteLength "" = 0 := rfl

/-- The characters from byte `n` on. -/
def dropBytes : List Char → Nat → Option (List Char)
  | cs, 0 => some cs
  | [], _ + 1 => none
  | c :: cs, n + 1 =>
      if c.utf8Size ≤ n + 1 then dropBytes cs (n + 1 - c.utf8Size) else none

/-- The characters up to byte `n`. -/
def takeBytes : List Char → Nat → Option (List Char)
  | _, 0 => some []
  | [], _ + 1 => none
  | c :: cs, n + 1 =>
      if c.utf8Size ≤ n + 1 then (takeBytes cs (n + 1 - c.utf8Size)).map (c :: ·) else none

/-- `&s[a..b]`. -/
def byteSlice (s : String) (a b : Nat) : Except Panic String :=
  match (dropBytes s.toList a).bind fun cs => if a ≤ b then takeBytes cs (b - a) else none with
  | some cs => .ok (String.ofList cs)
  | none => .error .sliceIndex

theorem takeBytes_size {cs ds : List Char} {n : Nat} (h : takeBytes cs n = some ds) :
    (ds.map Char.utf8Size).sum = n := by
  induction cs generalizing n ds with
  | nil =>
      cases n with
      | zero => cases h; rfl
      | succ n => cases h
  | cons c cs ih =>
      cases n with
      | zero => cases h; rfl
      | succ n =>
          simp only [takeBytes] at h
          split at h
          · obtain ⟨es, hes, rfl⟩ := Option.map_eq_some_iff.mp h
            have := ih hes
            simp only [List.map_cons, List.sum_cons, this]
            omega
          · cases h

/-- A slice has the length its offsets say. -/
theorem byteLength_byteSlice {s t : String} {a b : Nat} (h : byteSlice s a b = .ok t) :
    byteLength t = b - a := by
  unfold byteSlice at h
  split at h
  · rename_i cs hcs
    cases h
    obtain ⟨ds, -, hds⟩ := Option.bind_eq_some_iff.mp hcs
    split at hds
    · simpa [byteLength] using takeBytes_size hds
    · cases hds
  · cases h

/-- `std::str::from_utf8` of the bytes of a text. -/
theorem fromUTF8?_toUTF8 (s : String) : String.fromUTF8? s.toUTF8 = some s := by
  unfold String.fromUTF8?
  split
  · rfl
  · rename_i h
    exact absurd s.isValidUTF8 h

/-- `s.split(sep)`, collected. -/
def splitChar (sep : Char) (s : String) : List String :=
  (s.toList.splitOn sep).map String.ofList

theorem splitChar_ne_nil (sep : Char) (s : String) : splitChar sep s ≠ [] := by
  simp [splitChar]

/-- A piece of a split text lies in the text. -/
theorem infix_of_mem_splitChar {sep : Char} {s piece : String} (h : piece ∈ splitChar sep s) :
    piece.toList <:+: s.toList := by
  obtain ⟨l, hl, rfl⟩ := List.mem_map.mp h
  obtain ⟨i, hi⟩ := List.mem_iff_getElem?.mp hl
  have hmem : l ∈ (s.toList.splitOn sep).intersperse [sep] :=
    List.mem_of_getElem? (by rw [List.getElem?_intersperse_two_mul, hi])
  have hpart : l <:+: [sep].intercalate (s.toList.splitOn sep) := List.infix_of_mem_flatten hmem
  rwa [List.intercalate_splitOn, ← String.toList_ofList (l := l)] at hpart

/-- What is joined by a separator is split there again, and so are its parts. -/
theorem splitChar_append (sep : Char) (s t : String) :
    splitChar sep (s ++ String.ofList [sep] ++ t) = splitChar sep s ++ splitChar sep t := by
  simp [splitChar, List.splitOn_append_cons_self]

theorem splitChar_of_notMem {sep : Char} {s : String} (h : sep ∉ s.toList) :
    splitChar sep s = [s] := by
  simp [splitChar, List.splitOn_eq_singleton h]

/-- The first piece is free of the separator, and behind it the text ends or
the separator stands. -/
theorem head?_splitChar {sep : Char} {s piece : String} :
    (splitChar sep s).head? = some piece ↔ sep ∉ piece.toList ∧
      (s = piece ∨ ∃ rest, s = piece ++ String.ofList [sep] ++ rest) := by
  constructor
  · intro h
    by_cases hmem : sep ∈ s.toList
    · obtain ⟨before, rest, hs, hbefore⟩ := List.eq_append_cons_of_mem hmem
      have hjoin : s = String.ofList before ++ String.ofList [sep] ++ String.ofList rest := by
        apply String.toList_inj.mp
        simpa using hs
      have hfree : sep ∉ (String.ofList before).toList := by simpa using hbefore
      rw [hjoin, splitChar_append, splitChar_of_notMem hfree] at h
      cases h
      exact ⟨hfree, .inr ⟨_, hjoin⟩⟩
    · rw [splitChar_of_notMem hmem] at h
      cases h
      exact ⟨hmem, .inl rfl⟩
  · rintro ⟨hfree, rfl | ⟨rest, rfl⟩⟩
    · rw [splitChar_of_notMem hfree]
      rfl
    · rw [splitChar_append, splitChar_of_notMem hfree]
      rfl

/-- Two texts joined by a separator that neither holds are split again. -/
theorem splitChar_join {sep : Char} {s t : String} (hs : sep ∉ s.toList) (ht : sep ∉ t.toList) :
    splitChar sep (s ++ String.ofList [sep] ++ t) = [s, t] := by
  rw [splitChar_append, splitChar_of_notMem hs, splitChar_of_notMem ht]
  rfl

/-- The last separator tells where two texts were joined. -/
theorem join_inj {sep : Char} {s s' t t' : String} (ht : sep ∉ t.toList) (ht' : sep ∉ t'.toList)
    (h : s ++ String.ofList [sep] ++ t = s' ++ String.ofList [sep] ++ t') : s = s' ∧ t = t' := by
  have hlists : s.toList ++ sep :: t.toList = s'.toList ++ sep :: t'.toList := by
    simpa using congrArg String.toList h
  -- of two different places for the separator, one lies behind the other
  have hbehind : ∀ {a b b' : List Char}, sep ∉ b → sep :: b = a ++ sep :: b' →
      a = [] ∧ b = b' := by
    intro a b b' hb heq
    cases a with
    | nil => exact ⟨rfl, by simpa using heq⟩
    | cons c a =>
        have hmem : sep ∈ b := by
          rw [(List.cons.inj heq).2]
          simp
        exact absurd hmem hb
  rw [← String.toList_inj, ← @String.toList_inj t]
  rcases List.append_eq_append_iff.mp hlists with ⟨a, hs, heq⟩ | ⟨a, hs, heq⟩
  · obtain ⟨rfl, hb⟩ := hbehind ht heq
    exact ⟨by simpa using hs.symm, hb⟩
  · obtain ⟨rfl, hb⟩ := hbehind ht' heq
    exact ⟨by simpa using hs, hb.symm⟩

/-- Texts with equally long beginnings are equal part by part. -/
theorem append_inj_of_byteLength {s s' t t' : String} (hlength : byteLength s = byteLength s')
    (h : s ++ t = s' ++ t') : s = s' ∧ t = t' := by
  have hlists : s.toList ++ t.toList = s'.toList ++ t'.toList := by
    simpa using congrArg String.toList h
  have hempty : ∀ {a b : List Char}, (a.map Char.utf8Size).sum =
      ((a ++ b).map Char.utf8Size).sum → b = [] := by
    intro a b heq
    cases b with
    | nil => rfl
    | cons c b =>
        have hpos := c.utf8Size_pos
        simp only [List.map_append, List.map_cons, List.sum_append, List.sum_cons] at heq
        omega
  have hbegin : s.toList = s'.toList := by
    unfold byteLength at hlength
    rcases List.append_eq_append_iff.mp hlists with ⟨a, hs, -⟩ | ⟨a, hs, -⟩
    · rw [hs] at hlength ⊢
      rw [hempty hlength, List.append_nil]
    · rw [hs] at hlength ⊢
      rw [hempty hlength.symm, List.append_nil]
  exact ⟨String.toList_inj.mp hbegin,
    String.toList_inj.mp (List.append_cancel_left (hbegin ▸ hlists))⟩

/-- `s.contains(pat)`. -/
def containsStr (s pat : String) : Bool := decide (pat.toList <:+: s.toList)

end Rust
