import Mathlib.Algebra.Group.Nat.Defs
import Aggregate.Digest
import Aggregate.Proofs.Digest.Steps

/-
  Bytes read in words

  The words that a byte string is read in stand at places that depend on its length
  alone: words of eight bytes, then at most one each of four, two and one
  (`wordSizes`, `chunks_eq_cut`). A word tells its bytes, so strings of one length
  whose differences all lie within one of these places give words of the same
  widths that differ in one place (`chunks_differ`).
-/

namespace Aggregate

namespace Digest

/-! ## Words of bytes -/

theorem littleEndian_lt (bytes : List UInt8) : littleEndian bytes < 256 ^ bytes.length := by
  induction bytes with
  | nil => exact Nat.one_pos
  | cons b rest ih =>
    have hb := b.toNat_lt
    rw [littleEndian, List.length_cons, Nat.pow_succ]
    omega

theorem littleEndian_inj :
    ∀ {a b : List UInt8}, a.length = b.length → littleEndian a = littleEndian b → a = b
  | [], [], _, _ => rfl
  | x :: a, y :: b, hlength, h => by
    have hx := x.toNat_lt
    have hy := y.toNat_lt
    rw [littleEndian, littleEndian] at h
    have hfirst : x = y := UInt8.toNat_inj.mp (by omega)
    have hrest : a = b := littleEndian_inj (Nat.succ.inj hlength) (by omega)
    rw [hfirst, hrest]

theorem chunk_inj {n : Nat} {a b : List UInt8} (hn : n ≤ 8) (hlength : a.length = b.length) :
    chunk n a = chunk n b ↔ a.take n = b.take n := by
  have hlt : ∀ bytes : List UInt8, littleEndian (bytes.take n) < 2 ^ 64 := by
    intro bytes
    have hbound : 256 ^ (bytes.take n).length ≤ 256 ^ 8 :=
      Nat.pow_le_pow_right (by decide) (Nat.le_trans (List.length_take_le n bytes) hn)
    exact Nat.lt_of_lt_of_le (littleEndian_lt _) hbound
  refine ⟨fun h => ?_, fun h => by rw [chunk, chunk, h]⟩
  have hvalue := congrArg (fun c => c.value.toNat) h
  simp only [chunk, BitVec.toNat_ofNat, Nat.mod_eq_of_lt (hlt _)] at hvalue
  exact littleEndian_inj (by simp [hlength]) hvalue

/-- The sizes of the words that so many bytes are read in: eight each, then at most one each of
four, two and one. -/
def wordSizes (n : Nat) : List Nat :=
  List.replicate (n / 8) 8 ++ ((if 4 ≤ n % 8 then [4] else []) ++
    ((if 2 ≤ n % 4 then [2] else []) ++ if 1 ≤ n % 2 then [1] else []))

/-- Bytes read in words of the given sizes. -/
def cut : List Nat → List UInt8 → List Chunk
  | [], _ => []
  | size :: sizes, bytes => chunk size bytes :: cut sizes (bytes.drop size)

theorem wordSizes_add (n : Nat) : wordSizes (n + 8) = 8 :: wordSizes n := by
  have hwords : (n + 8) / 8 = n / 8 + 1 := by omega
  have hmod8 : (n + 8) % 8 = n % 8 := by omega
  have hmod4 : (n + 8) % 4 = n % 4 := by omega
  have hmod2 : (n + 8) % 2 = n % 2 := by omega
  rw [wordSizes, hwords, hmod8, hmod4, hmod2, List.replicate_succ, List.cons_append]
  rfl

theorem tailChunks_eq_cut {bytes : List UInt8} (h : bytes.length < 8) :
    tailChunks bytes 3 = cut (wordSizes bytes.length) bytes := by
  have hcases : bytes.length = 0 ∨ bytes.length = 1 ∨ bytes.length = 2 ∨ bytes.length = 3 ∨
      bytes.length = 4 ∨ bytes.length = 5 ∨ bytes.length = 6 ∨ bytes.length = 7 := by omega
  rcases hcases with h | h | h | h | h | h | h | h <;>
    simp [tailChunks, wordSizes, cut, h]

/-- Where the words of a byte string stand depends on its length alone. -/
theorem chunks_eq_cut (bytes : List UInt8) : chunks bytes = cut (wordSizes bytes.length) bytes := by
  induction bytes using chunks.induct with
  | case1 bytes hlong ih =>
    obtain ⟨n, hn⟩ := Nat.exists_eq_add_of_le' hlong
    have hrest : (bytes.drop 8).length = n := by simp [hn]
    rw [chunks, if_pos hlong, ih, hrest, hn, wordSizes_add, cut]
  | case2 bytes hshort =>
    rw [chunks, if_neg hshort, tailChunks_eq_cut (Nat.not_le.mp hshort)]

/-! ## Differences within a word -/

theorem le_of_mem_wordSizes {n size : Nat} (h : size ∈ wordSizes n) : size ≤ 8 := by
  simp only [wordSizes, List.mem_append, List.mem_replicate] at h
  rcases h with ⟨-, rfl⟩ | h | h | h
  · exact Nat.le_refl 8
  all_goals
    split at h
    · simp only [List.mem_singleton] at h
      omega
    · cases h

theorem cut_append (sizes more : List Nat) (bytes : List UInt8) :
    cut (sizes ++ more) bytes = cut sizes bytes ++ cut more (bytes.drop (total sizes)) := by
  induction sizes generalizing bytes with
  | nil => rfl
  | cons size sizes ih =>
    rw [List.cons_append, cut, cut, ih, List.cons_append, List.drop_drop, total_cons]

theorem cut_congr (sizes : List Nat) :
    ∀ {a b : List UInt8}, a.take (total sizes) = b.take (total sizes) →
      cut sizes a = cut sizes b := by
  induction sizes with
  | nil => exact fun _ => rfl
  | cons size sizes ih =>
    intro a b h
    rw [total_cons] at h
    have hfirst : a.take size = b.take size := by
      have htake := congrArg (List.take size) h
      rwa [List.take_take, List.take_take, Nat.min_eq_left (Nat.le_add_right _ _)] at htake
    have hrest : (a.drop size).take (total sizes) = (b.drop size).take (total sizes) := by
      rw [List.take_drop, List.take_drop, h]
    rw [cut, cut, ih hrest, chunk, chunk, hfirst]

theorem bytes_cut (sizes : List Nat) (bytes : List UInt8) :
    (cut sizes bytes).map Chunk.bytes = sizes := by
  induction sizes generalizing bytes with
  | nil => rfl
  | cons size sizes ih => rw [cut, List.map_cons, ih, chunk]

theorem bytes_chunks (bytes : List UInt8) :
    (chunks bytes).map Chunk.bytes = wordSizes bytes.length := by
  rw [chunks_eq_cut, bytes_cut]

/-- Byte strings of one length that are not the same, and whose differences all lie within one of
the words that they are read in. -/
def DifferInWord (a b : List UInt8) : Prop :=
  a.length = b.length ∧ a ≠ b ∧
    ∃ before size after, (chunks a).map Chunk.bytes = before ++ size :: after ∧
      ∀ i : Nat, a[i]? ≠ b[i]? → total before ≤ i ∧ i < total before + size

section
variable {a b : List UInt8} {start stop : Nat}

theorem take_eq_of_differ (h : ∀ i : Nat, a[i]? ≠ b[i]? → start ≤ i) :
    a.take start = b.take start := by
  refine List.ext_getElem? fun i => ?_
  rw [List.getElem?_take, List.getElem?_take]
  split
  · next hlt =>
    refine Decidable.byContradiction fun hne => ?_
    exact absurd (h i hne) (Nat.not_le.mpr hlt)
  · rfl

theorem drop_eq_of_differ (h : ∀ i : Nat, a[i]? ≠ b[i]? → i < stop) :
    a.drop stop = b.drop stop := by
  refine List.ext_getElem? fun i => ?_
  rw [List.getElem?_drop, List.getElem?_drop]
  refine Decidable.byContradiction fun hne => ?_
  exact absurd (h _ hne) (Nat.not_lt.mpr (Nat.le_add_right _ _))

/-- The words of such strings differ in one place. -/
theorem chunks_differ (h : DifferInWord a b) : DifferInOne (chunks a) (chunks b) := by
  obtain ⟨hlength, hne, before, size, after, hsizes, hwithin⟩ := h
  rw [bytes_chunks] at hsizes
  have hlow : a.take (total before) = b.take (total before) :=
    take_eq_of_differ fun i hi => (hwithin i hi).1
  have hhigh : a.drop (total before + size) = b.drop (total before + size) :=
    drop_eq_of_differ fun i hi => (hwithin i hi).2
  have hsize : size ≤ 8 := le_of_mem_wordSizes (n := a.length) (by rw [hsizes]; simp)
  -- The bytes of the word in between are all that is left to differ.
  have hword : chunk size (a.drop (total before)) ≠ chunk size (b.drop (total before)) := by
    intro hsame
    have hbytes := (chunk_inj hsize (by simp [hlength])).mp hsame
    have hrest : a.drop (total before) = b.drop (total before) := by
      rw [← List.take_append_drop size (a.drop (total before)), hbytes, List.drop_drop, hhigh,
        ← List.drop_drop, List.take_append_drop]
    exact hne (by
      rw [← List.take_append_drop (total before) a, hlow, hrest, List.take_append_drop])
  rw [chunks_eq_cut, chunks_eq_cut, ← hlength, hsizes, cut_append, cut_append,
    cut_congr before hlow, cut, cut, List.drop_drop, List.drop_drop, hhigh]
  exact differInOne_iff.mpr ⟨_, _, _, _, rfl, rfl, hword⟩

end

end Digest

end Aggregate
