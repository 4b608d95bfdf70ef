import Mathlib.Data.Nat.Digits.Defs
import Aggregate.Proofs.Trace.Faithful

/-
  Tags side by side

  While tags fit their frames and the frames fit the width, the hash spells the
  tags: it is the number whose digits they are, the one pushed first the lowest,
  in a base as large as a short frame. A salt that fits above them is the next
  digit, however large. Pushing a tag is salting with it, so both are one lemma
  (`toNat_salted`). Nothing is lost on the way, and a reporting build warns of
  nothing (`hash_spells_tags`).
-/

namespace Aggregate

variable {w : Width} {tags tags' : List (Word w)} {tag salt salt' : Word w}

/-! ## What can be spelled -/

/-- Tags that are digits and fit the width side by side, and a salt that fits above them. -/
structure Legible (tags : List (Word w)) (salt : Word w) : Prop where
  digit : ∀ tag ∈ tags, tag.toNat < 2 ^ w.frameBits
  room : tags.length * w.frameBits ≤ w.bits
  salt : salt.toNat < 2 ^ (w.bits - tags.length * w.frameBits)

theorem Legible.concat (h : Legible (tags ++ [tag]) salt) :
    Legible tags tag ∧ tag.toNat < 2 ^ w.frameBits ∧
      tags.length * w.frameBits + w.frameBits ≤ w.bits := by
  have hroom := h.room
  rw [List.length_append, List.length_singleton, Nat.succ_mul] at hroom
  have htag : tag.toNat < 2 ^ w.frameBits := h.digit tag (by simp)
  refine ⟨⟨fun x hx => h.digit x (List.mem_append_left _ hx), by omega, ?_⟩, htag, hroom⟩
  exact Nat.lt_of_lt_of_le htag (Nat.pow_le_pow_right (by decide) (by omega))

/-- The context after tags have been pushed in order on an empty trace. -/
def tagged (reporting : Bool) (tags : List (Word w)) : Context w :=
  (Context.onTrace .empty).operate reporting (tags.map fun tag => .act (.push tag))

theorem tagged_concat (reporting : Bool) (tags : List (Word w)) (tag : Word w) :
    tagged reporting (tags ++ [tag]) =
      ((tagged reporting tags).pushFrame reporting tag w.frameBits).context := by
  rw [tagged, List.map_append, operate_append]
  rfl

namespace Path

/-- The path of tags pushed in order. -/
def ofTags (tags : List (Word w)) : Path w := (tags.map fun tag => ⟨tag, w.frameBits⟩).reverse

theorem ofTags_concat (tags : List (Word w)) (tag : Word w) :
    ofTags (tags ++ [tag]) = ⟨tag, w.frameBits⟩ :: ofTags tags := by
  simp [ofTags]

theorem ofTags_inj : ofTags tags = ofTags tags' ↔ tags = tags' := by
  refine ⟨fun h => ?_, fun h => by rw [h]⟩
  exact List.map_injective_iff.mpr (fun _ _ h => (Pushed.mk.inj h).1) (List.reverse_injective h)

theorem sizes_ofTags (tags : List (Word w)) :
    (ofTags tags).map Pushed.size = List.replicate tags.length w.frameBits := by
  simp [ofTags, List.map_reverse, Function.comp_def]

theorem size_ofTags (tags : List (Word w)) : (ofTags tags).size = tags.length * w.frameBits := by
  induction tags using List.reverseRecOn with
  | nil => simp [ofTags]
  | append_singleton tags tag ih =>
    rw [ofTags_concat, size_cons, ih, List.length_append, List.length_singleton, Nat.succ_mul,
      Nat.add_comm]

/-! ## The number that the hash is -/

theorem toNat_salted {p : Path w} (hroom : p.size < w.bits)
    (hsalt : salt.toNat < 2 ^ (w.bits - p.size)) :
    (p.trace.salted salt).toNat = p.trace.hash.toNat + salt.toNat * 2 ^ p.size := by
  have hfits : salt.toNat * 2 ^ p.size < 2 ^ w.bits := by
    calc salt.toNat * 2 ^ p.size < 2 ^ (w.bits - p.size) * 2 ^ p.size :=
          Nat.mul_lt_mul_of_pos_right hsalt (Nat.two_pow_pos p.size)
      _ = 2 ^ w.bits := by rw [← Nat.pow_add, Nat.sub_add_cancel (Nat.le_of_lt hroom)]
  rw [salted_room hroom, BitVec.toNat_or, BitVec.toNat_shiftLeft, Nat.shiftLeft_eq,
    Nat.mod_eq_of_lt hfits, ← Nat.shiftLeft_eq, Nat.or_comm,
    ← Nat.shiftLeft_add_eq_or_of_lt (p.hash_lt hroom), Nat.shiftLeft_eq, Nat.add_comm]

theorem lossless_ofTags (h : Legible tags salt) : (ofTags tags).Lossless := by
  induction tags using List.reverseRecOn generalizing salt with
  | nil => exact trivial
  | append_singleton tags tag ih =>
    obtain ⟨hbelow, htag, hroom⟩ := h.concat
    rw [ofTags_concat]
    refine ⟨w.frameBits_pos, (le_lowMask_iff (Nat.le_of_lt w.frameBits_lt_bits)).mpr htag, ?_,
      ih hbelow⟩
    rw [size_ofTags]
    show w.frameBits + tags.length * w.frameBits ≤ w.bits
    omega

/-- The hash is the number that the tags are the digits of. -/
theorem hash_ofTags (h : Legible tags salt) :
    (ofTags tags).trace.hash.toNat = Nat.ofDigits (2 ^ w.frameBits) (tags.map BitVec.toNat) := by
  induction tags using List.reverseRecOn generalizing salt with
  | nil => rfl
  | append_singleton tags tag ih =>
    obtain ⟨hbelow, htag, hroom⟩ := h.concat
    have hpos := w.frameBits_pos
    have hsize : (ofTags tags).size < w.bits := by
      rw [size_ofTags]
      omega
    have hlossless := lossless_ofTags h
    rw [ofTags_concat] at hlossless ⊢
    rw [hash_cons hlossless, toNat_salted hsize (size_ofTags tags ▸ hbelow.salt), ih hbelow,
      List.map_append, Nat.ofDigits_append, List.map_singleton, Nat.ofDigits_singleton,
      List.length_map, size_ofTags, ← Nat.pow_mul, Nat.mul_comm w.frameBits,
      Nat.mul_comm tag.toNat]

theorem salted_ofTags (h : Legible tags salt) :
    ((ofTags tags).trace.salted salt).toNat =
      Nat.ofDigits (2 ^ w.frameBits) (tags.map BitVec.toNat) +
        salt.toNat * 2 ^ (w.frameBits * tags.length) := by
  have hsalt := h.salt
  rw [← hash_ofTags h, Nat.mul_comm w.frameBits]
  rw [← size_ofTags] at hsalt ⊢
  rcases Nat.lt_or_ge (ofTags tags).size w.bits with hroom | hfull
  · exact toNat_salted hroom hsalt
  · -- No bit is left above the tags, so there is no salt.
    rw [Nat.sub_eq_zero_of_le hfull] at hsalt
    have hzero : salt.toNat = 0 := Nat.lt_one_iff.mp hsalt
    have hnone : salt = 0 := BitVec.eq_of_toNat_eq (hzero.trans BitVec.toNat_zero.symm)
    rw [hzero, Nat.zero_mul, Nat.add_zero, hnone, Trace.salted_zero]

/-- Tags of one number and salts that fit above them can be read off. -/
theorem salted_ofTags_inj (h : Legible tags salt) (h' : Legible tags' salt')
    (hlength : tags.length = tags'.length) :
    (ofTags tags).trace.salted salt = (ofTags tags').trace.salted salt' ↔
      tags = tags' ∧ salt = salt' := by
  refine ⟨fun hsame => ?_, fun hboth => by rw [hboth.1, hboth.2]⟩
  have hsizes : (ofTags tags).map Pushed.size = (ofTags tags').map Pushed.size := by
    rw [sizes_ofTags, sizes_ofTags, hlength]
  have hsalt := size_ofTags tags ▸ h.salt
  have hsalt' := size_ofTags tags' ▸ h'.salt
  rcases Nat.lt_or_ge (ofTags tags).size w.bits with hroom | hfull
  · have hboth := salted_inj_of_room (lossless_ofTags h) (lossless_ofTags h') hsizes hroom hsalt
      hsalt' hsame
    exact ⟨ofTags_inj.mp hboth.1, hboth.2⟩
  · have hnone : salt = salt' := by
      have hfull' : w.bits ≤ (ofTags tags').size := hfull.trans_eq (congrArg total hsizes)
      rw [Nat.sub_eq_zero_of_le hfull] at hsalt
      rw [Nat.sub_eq_zero_of_le hfull'] at hsalt'
      apply BitVec.eq_of_toNat_eq
      omega
    have htold := salted_inj_of_full (lossless_ofTags h) (lossless_ofTags h') hsizes hfull hsame
    exact ⟨ofTags_inj.mp (htold.mpr hnone), hnone⟩

end Path

/-! ## Runs that push tags -/

theorem frameWarnings_of_fits {t : Trace w} {size : Nat} (htag : tag ≤ lowMask size)
    (hroom : t.used + size ≤ w.bits) : t.frameWarnings tag size = [] := by
  rw [Trace.frameWarnings, if_neg (BitVec.not_lt.mpr htag), if_neg (by omega)]
  rfl

theorem follows_tagged (reporting : Bool) (h : Legible tags salt) :
    (tagged reporting tags).Follows ⟨.ofTags tags, [], []⟩ := by
  induction tags using List.reverseRecOn generalizing salt with
  | nil => exact follows_new
  | append_singleton tags tag ih =>
    obtain ⟨hbelow, htag, hroom⟩ := h.concat
    have hfits : (Shadow.push tag w.frameBits ⟨.ofTags tags, [], []⟩).Fits := by
      have hlimit : w.bits < Trace.sizeLimit := by cases w <;> decide
      show Path.size (⟨tag, w.frameBits⟩ :: Path.ofTags tags) < _
      rw [Path.size_cons, Path.size_ofTags]
      show w.frameBits + tags.length * w.frameBits < _
      omega
    rw [tagged_concat, Path.ofTags_concat]
    exact follows_pushFrame (ih hbelow) hfits

theorem pending_tagged (reporting : Bool) (h : Legible tags salt) :
    (tagged reporting tags).pending = [] := by
  induction tags using List.reverseRecOn generalizing salt with
  | nil => rfl
  | append_singleton tags tag ih =>
    obtain ⟨hbelow, htag, hroom⟩ := h.concat
    have hused : (tagged reporting tags).trace.used = tags.length * w.frameBits := by
      rw [(follows_tagged reporting hbelow).trace, Path.trace_used, Path.size_ofTags]
    have hquiet : (tagged reporting tags).trace.frameWarnings tag w.frameBits = [] :=
      frameWarnings_of_fits ((le_lowMask_iff (Nat.le_of_lt w.frameBits_lt_bits)).mpr htag)
        (by rw [hused]; exact hroom)
    rw [tagged_concat]
    show (if reporting then (tagged reporting tags).pending ++ _ else (tagged reporting tags).pending) = _
    rw [hquiet, ih hbelow, List.append_nil, ite_self]

/-- Tags that are digits and fit the width side by side, pushed in order on an empty trace, are spelled
by its hash; with a salt that fits above them the salt comes next. Of tags of the same number and
salts that fit no two are spelled alike. A reporting build warns neither of a tag nor of the salt. -/
theorem hash_spells_tags (reporting : Bool) {tags : List (Word w)} {salt : Word w}
    (h : Legible tags salt) :
    let t := (tagged reporting tags).trace
    (t.salted 0).toNat = Nat.ofDigits (2 ^ w.frameBits) (tags.map BitVec.toNat) ∧
    (t.salted salt).toNat = Nat.ofDigits (2 ^ w.frameBits) (tags.map BitVec.toNat) +
      salt.toNat * 2 ^ (w.frameBits * tags.length) ∧
    (∀ (tags' : List (Word w)) (salt' : Word w), Legible tags' salt' →
      tags.length = tags'.length →
        (t.salted salt = (tagged reporting tags').trace.salted salt' ↔
          tags = tags' ∧ salt = salt')) ∧
    ((Action.hash salt).perform reporting (tagged reporting tags)).context.pending = [] := by
  intro t
  have htrace : ∀ {tags : List (Word w)} {salt : Word w}, Legible tags salt →
      (tagged reporting tags).trace = (Path.ofTags tags).trace :=
    fun h => (follows_tagged reporting h).trace
  have ht : t = (Path.ofTags tags).trace := htrace h
  refine ⟨?_, ?_, fun tags' salt' h' hlength => ?_, ?_⟩
  · rw [Trace.salted_zero, ht]
    exact Path.hash_ofTags h
  · rw [ht]
    exact Path.salted_ofTags h
  · rw [ht, htrace h']
    exact Path.salted_ofTags_inj h h' hlength
  · have hquiet : t.saltWarnings salt = [] := by
      rw [Trace.saltWarnings_eq, if_neg]
      rintro ⟨-, hlarge⟩
      rw [ht, Path.trace_used, Path.size_ofTags] at hlarge
      exact absurd h.salt (Nat.not_lt.mpr hlarge)
    show (if reporting then (tagged reporting tags).pending ++ t.saltWarnings salt
      else (tagged reporting tags).pending) = []
    rw [hquiet, pending_tagged reporting h, List.append_nil, ite_self]

/-- Three tags with a salt in the last digit above them, and four tags that leave none. -/
theorem hash_spells_tags_full :
    ((tagged true [15, 0, (7 : Word .short)]).trace.salted 9).toNat = 0x970F ∧
      ((tagged true [15, 0, 7, (9 : Word .short)]).trace.salted 0).toNat = 0x970F ∧
        ((Action.hash 9).perform true (tagged true [15, 0, (7 : Word .short)])).context.pending =
          [] := by
  have hthree : Legible [15, 0, (7 : Word .short)] 9 :=
    ⟨List.forall_iff_forall_mem.mp (by decide), by decide, by decide⟩
  have hfour : Legible [15, 0, 7, (9 : Word .short)] 0 :=
    ⟨List.forall_iff_forall_mem.mp (by decide), by decide, by decide⟩
  obtain ⟨-, hsalted, -, hquiet⟩ := hash_spells_tags true hthree
  obtain ⟨hfull, -⟩ := hash_spells_tags true hfour
  exact ⟨hsalted.trans (by decide), hfull.trans (by decide), hquiet⟩

end Aggregate
