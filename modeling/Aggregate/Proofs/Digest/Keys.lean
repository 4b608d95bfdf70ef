import Aggregate.Key.Basic
import Aggregate.Proofs.Digest.Words
import Aggregate.Proofs.Trace.Siblings

/-
  Keys that differ in one word are told apart

  A key is digested word by word, and every step of that digest is one to one in
  the word and in the state, so keys that write words of the same widths and
  differ in one of them (`Key.OneWordApart`) have different digests, wherever that
  word stands and whatever follows it. Integers of up to 64 bits, truth values and
  characters are one word each, and texts of one length that differ within a word
  of theirs are one word apart, so all of these are told.

  A region keyed by a digest fills the trace, and the hash then tells all keys
  from each other, over whatever lies below (`hashAfter_key`).
-/

namespace Aggregate

namespace Digest

/-! ## Words -/

theorem mix_eq_iff (d e v w : BitVec 64) :
    mix d v = mix e w ↔ d.rotateLeft 5 ^^^ v = e.rotateLeft 5 ^^^ w :=
  mul_inj_of_inverse multiplier_inverse _ _

theorem mix_state {v d e : BitVec 64} (h : mix d v = mix e v) : d = e :=
  (rotateLeft_inj (by decide)).mp ((BitVec.xor_left_inj v).mp ((mix_eq_iff d e v v).mp h))

theorem mix_word {d v w : BitVec 64} (h : mix d v = mix d w) : v = w :=
  (BitVec.xor_right_inj _).mp ((mix_eq_iff d d v w).mp h)

/-- Words of the same widths that differ in one place have different digests. -/
theorem ofChunks_ne {xs ys : List Chunk} (hwidths : xs.map Chunk.bytes = ys.map Chunk.bytes)
    (h : DifferInOne xs ys) : ofChunks xs ≠ ofChunks ys := by
  obtain ⟨before, c, d, after, rfl, rfl, hne⟩ := differInOne_iff.mp h
  have hbytes : c.bytes = d.bytes := by simpa using hwidths
  have hstate : ∀ (x : Chunk) (s t : BitVec 64), mix s x.value = mix t x.value → s = t :=
    fun _ _ _ => mix_state
  have hvalue : ∀ s : BitVec 64, mix s c.value ≠ mix s d.value := by
    intro s h
    have hword := mix_word h
    cases c
    cases d
    exact hne (by rw [Chunk.mk.injEq]; exact ⟨hbytes, hword⟩)
  exact foldl_ne hstate hvalue 0

end Digest

/-! ## Keys -/

namespace Key

/-- The keys write words of the same number and widths, which differ in exactly one word. -/
def OneWordApart (k l : Key) : Prop :=
  k.chunks.map Chunk.bytes = l.chunks.map Chunk.bytes ∧ DifferInOne k.chunks l.chunks

theorem OneWordApart.digest_ne {k l : Key} (h : k.OneWordApart l) :
    k.digest .long ≠ l.digest .long := by
  rw [digest, digest, narrow_long, narrow_long]
  exact Digest.ofChunks_ne h.1 h.2

theorem oneWordApart_of_singleton {k l : Key} {n : Nat} {v u : BitVec 64} (hk : k.chunks = [⟨n, v⟩])
    (hl : l.chunks = [⟨n, u⟩]) (hne : v ≠ u) : k.OneWordApart l := by
  rw [OneWordApart, hk, hl]
  exact ⟨rfl, differInOne_singleton fun h => hne (congrArg Chunk.value h)⟩

theorem oneWordApart_integer {width : IntWidth} (hwidth : width ≠ .w128)
    {a b : BitVec width.bits} (hne : a ≠ b) :
    (integer width a).OneWordApart (.integer width b) := by
  have hbits : width.bits ≤ 64 := by cases width <;> first | decide | exact absurd rfl hwidth
  have hchunks : ∀ v : BitVec width.bits,
      (integer width v).chunks = [⟨width.bytes, BitVec.ofNat 64 v.toNat⟩] := by
    intro v
    cases width <;> first | rfl | exact absurd rfl hwidth
  refine oneWordApart_of_singleton (hchunks a) (hchunks b) fun h => hne ?_
  rw [BitVec.ofNat_toNat, BitVec.ofNat_toNat] at h
  exact (Digest.widened_inj hbits).mp h

theorem oneWordApart_boolean {a b : Bool} (hne : a ≠ b) :
    (boolean a).OneWordApart (.boolean b) := by
  refine oneWordApart_of_singleton rfl rfl ?_
  cases a <;> cases b <;> first | decide | exact absurd rfl hne

theorem oneWordApart_character {a b : Char} (hne : a ≠ b) :
    (character a).OneWordApart (.character b) := by
  refine oneWordApart_of_singleton rfl rfl fun h => hne ?_
  have hword : ∀ x : Char, BitVec.ofNat 64 x.toNat = x.val.toBitVec.setWidth 64 :=
    fun x => BitVec.ofNat_toNat 64 x.val.toBitVec
  rw [hword, hword, Digest.widened_inj (by decide)] at h
  exact Char.ext (UInt32.toBitVec_inj.mp h)

theorem oneWordApart_text {s t : String} (h : Digest.DifferInWord s.toUTF8.toList t.toUTF8.toList) :
    (text s).OneWordApart (.text t) := by
  have hwidths : (Digest.chunks s.toUTF8.toList).map Chunk.bytes =
      (Digest.chunks t.toUTF8.toList).map Chunk.bytes := by
    rw [Digest.bytes_chunks, Digest.bytes_chunks, h.1]
  rw [OneWordApart, chunks, chunks, List.map_append, List.map_append, hwidths]
  exact ⟨rfl, (Digest.chunks_differ h).append _⟩

end Key

/-! ## Regions opened for keys -/

section
variable {w : Width}

/-- The hash tells keys pushed in each other's place, whatever the trace and the salt. -/
theorem Trace.salted_pushed_key (t : Trace w) (a b salt : Word w) :
    (t.pushed a w.bits).salted salt = (t.pushed b w.bits).salted salt ↔ a = b := by
  have hfull : ∀ v, (t.pushed v w.bits).isSaturated = true := by
    intro v
    rw [isSaturated, pushed_used]
    exact decide_eq_true (Nat.le_add_left _ _)
  have hoffset : t.offset < w.bits := Nat.mod_lt _ w.bits_pos
  rw [salted, salted, if_pos (hfull a), if_pos (hfull b)]
  show t.hash ^^^ t.placed a w.bits ^^^ salt.rotateLeft ((t.used + w.bits) % w.bits) =
    t.hash ^^^ t.placed b w.bits ^^^ salt.rotateLeft ((t.used + w.bits) % w.bits) ↔ _
  rw [BitVec.xor_left_inj, BitVec.xor_right_inj, placed, placed, fold_width, fold_width,
    rotateLeft_inj hoffset]

theorem hashAfter_key (reporting : Bool) {c : Context w}
    (room : c.trace.used + w.bits < Trace.sizeLimit) (a b salt : Word w) :
    c.hashAfter reporting salt (.enter (.key a)) = c.hashAfter reporting salt (.enter (.key b)) ↔
      a = b := by
  have hopened : ∀ key : Word w,
      (Operation.perform reporting (.enter (.key key)) c).trace = c.trace.pushed key w.bits := by
    intro key
    show (c.pushScope reporting key w.bits .key).context.trace = _
    rw [Context.pushScope_fits key .key room]
    rfl
  rw [Context.hashAfter, Context.hashAfter, hopened, hopened]
  exact c.trace.salted_pushed_key a b salt

end

/-- On a long trace keys that are one word apart have different digests, and regions opened for them
over the same trace, at any depth, have different hashes with every salt. Different integers of one
type of up to 64 bits are one word apart, and so are the truth values, different characters, and
texts of one length that differ within one of the words that they are read in. -/
theorem one_word_told :
    (∀ k l : Key, k.OneWordApart l →
      k.digest .long ≠ l.digest .long ∧
        ∀ (reporting : Bool) (c : Context .long) (salt : Word .long),
          c.trace.used + Width.long.bits < Trace.sizeLimit →
            c.hashAfter reporting salt (.enter (.key (k.digest .long))) ≠
              c.hashAfter reporting salt (.enter (.key (l.digest .long)))) ∧
    (∀ width : IntWidth, width ≠ .w128 → ∀ a b : BitVec width.bits, a ≠ b →
      (Key.integer width a).OneWordApart (.integer width b)) ∧
    (∀ a b : Bool, a ≠ b → (Key.boolean a).OneWordApart (.boolean b)) ∧
    (∀ a b : Char, a ≠ b → (Key.character a).OneWordApart (.character b)) ∧
    ∀ s t : String, Digest.DifferInWord s.toUTF8.toList t.toUTF8.toList →
      (Key.text s).OneWordApart (.text t) := by
  refine ⟨fun k l apart => ⟨apart.digest_ne, fun reporting c salt room hsame => ?_⟩,
    fun width hwidth a b => Key.oneWordApart_integer hwidth, fun a b => Key.oneWordApart_boolean,
    fun a b => Key.oneWordApart_character, fun s t => Key.oneWordApart_text⟩
  exact apart.digest_ne ((hashAfter_key reporting room _ _ salt).mp hsame)

/-- A call, and a key that fills the trace. -/
def underCall : List (Operation .long) := [.enter (.call 5), .act (.pushWide 0xBEEF)]

/-- Two texts of two words each that differ in four bytes, all of them in the first word. -/
theorem one_word_told_doors :
    let c := (Context.onTrace .empty).operate true underCall
    Digest.DifferInWord "door-north".toUTF8.toList "gate-north".toUTF8.toList ∧
      c.trace.used + Width.long.bits < Trace.sizeLimit ∧
      c.hashAfter true 9 (.enter (.key ((Key.text "door-north").digest .long))) ≠
        c.hashAfter true 9 (.enter (.key ((Key.text "gate-north").digest .long))) := by
  intro c
  obtain ⟨htold, -, -, -, htexts⟩ := one_word_told
  have hdoor : "door-north".toUTF8.toList =
      [100, 111, 111, 114, 45, 110, 111, 114, 116, 104] := by decide +kernel
  have hgate : "gate-north".toUTF8.toList =
      [103, 97, 116, 101, 45, 110, 111, 114, 116, 104] := by decide +kernel
  have hdiffer : Digest.DifferInWord "door-north".toUTF8.toList "gate-north".toUTF8.toList := by
    rw [hdoor, hgate]
    refine ⟨rfl, by decide, [], 8, [2], by cbv, fun i hi => ⟨Nat.zero_le i, ?_⟩⟩
    refine Nat.lt_of_not_le fun hge => hi ?_
    obtain ⟨j, rfl⟩ := Nat.exists_eq_add_of_le hge
    rw [← List.getElem?_drop, ← List.getElem?_drop]
    rfl
  have hroom : c.trace.used + Width.long.bits < Trace.sizeLimit := by decide
  exact ⟨hdiffer, hroom, (htold _ _ (htexts _ _ hdiffer)).2 true c 9 hroom⟩

end Aggregate
