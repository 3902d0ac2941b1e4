import Mathlib.Data.List.GetD
import SharingProbe.HalAio.Arguments
import SharingProbe.HalAio.Iterations
import SharingProbe.Library.Framing

/-!
# Text records

Every record that an accepted run writes fits: the labels have 54 bytes and each of the
five numbers has at most thirteen digits.  A record ends in its only newline and has no
byte `0x00` or `0xff`.  It can be read back, so that the records of two places in the
buffer, or of two iterations, differ.
-/

namespace SharingProbe.HalAio

open Framing

/-! ## The text -/

/-- The text of a record before the dots. -/
def recordText (offset iteration : ℕ) (opt : Options) : List UInt8 :=
  textBytes "UCM iter=" ++ paddedDecimal iteration ++
    textBytes " block=" ++ paddedDecimal (offset / opt.slotBytes / opt.shards) ++
    textBytes " shard=" ++ paddedDecimal (offset / opt.slotBytes % opt.shards) ++
    textBytes " slot_offset=" ++ paddedDecimal (offset % opt.slotBytes) ++
    textBytes " buffer_offset=" ++ paddedDecimal offset ++ textBytes " | "

/-- The record for a text that fits. -/
def fillUp (text : List UInt8) : List UInt8 := text ++ List.replicate (127 - text.length) 46 ++ [10]

theorem textRecord_eq (offset iteration : ℕ) (opt : Options) :
    textRecord offset iteration opt =
      if (recordText offset iteration opt).length ≥ 128 then none
      else some (fillUp (recordText offset iteration opt)) := by
  unfold textRecord recordText fillUp
  rfl

theorem paddedDecimal_eq (n : ℕ) :
    paddedDecimal n = (padded 12 n).map fun c => UInt8.ofNat c.toNat := rfl

theorem toNat_of_isDigit {c : Char} (hc : c.isDigit = true) : 48 ≤ c.toNat ∧ c.toNat ≤ 57 := by
  rw [Char.isDigit_iff_toNat] at hc
  exact hc

/-- A byte between `0` and `9`. -/
theorem digit_of_mem_paddedDecimal {n : ℕ} {b : UInt8} (hb : b ∈ paddedDecimal n) :
    48 ≤ b.toNat ∧ b.toNat ≤ 57 := by
  rw [paddedDecimal_eq] at hb
  obtain ⟨c, hc, rfl⟩ := List.mem_map.mp hb
  have hdigit := toNat_of_isDigit (isDigit_of_mem_padded hc)
  rw [UInt8.toNat_ofNat', Nat.mod_eq_of_lt (by omega)]
  exact hdigit

/-- The digits can be read off the bytes. -/
theorem map_paddedDecimal (n : ℕ) :
    (paddedDecimal n).map (fun b => Char.ofNat b.toNat) = padded 12 n := by
  rw [paddedDecimal_eq, List.map_map]
  calc (padded 12 n).map _ = (padded 12 n).map id := by
        apply List.map_congr_left
        intro c hc
        have hdigit := toNat_of_isDigit (isDigit_of_mem_padded hc)
        show Char.ofNat (UInt8.ofNat c.toNat).toNat = c
        rw [UInt8.toNat_ofNat', Nat.mod_eq_of_lt (by omega), Char.ofNat_toNat]
    _ = padded 12 n := List.map_id _

theorem paddedDecimal_injective {n n' : ℕ} (h : paddedDecimal n = paddedDecimal n') : n = n' := by
  apply padded_injective
  rw [← map_paddedDecimal, h, map_paddedDecimal]

theorem length_paddedDecimal_le {n : ℕ} (hn : n ≤ maxBytes) : (paddedDecimal n).length ≤ 13 := by
  rw [paddedDecimal_eq, List.length_map]
  exact length_padded_le (by decide) (by decide) (lt_of_le_of_lt hn (by decide))

theorem length_recordText_le {offset iteration : ℕ} {opt : Options} (hoffset : offset ≤ maxBytes)
    (hiteration : iteration ≤ maxBytes) : (recordText offset iteration opt).length ≤ 119 := by
  have hslot : offset / opt.slotBytes ≤ maxBytes := (Nat.div_le_self _ _).trans hoffset
  have hiter := length_paddedDecimal_le hiteration
  have hblock := length_paddedDecimal_le ((Nat.div_le_self _ opt.shards).trans hslot)
  have hshard := length_paddedDecimal_le ((Nat.mod_le _ opt.shards).trans hslot)
  have hinner := length_paddedDecimal_le ((Nat.mod_le _ opt.slotBytes).trans hoffset)
  have houter := length_paddedDecimal_le hoffset
  have h₁ : (textBytes "UCM iter=").length = 9 := rfl
  have h₂ : (textBytes " block=").length = 7 := rfl
  have h₃ : (textBytes " shard=").length = 7 := rfl
  have h₄ : (textBytes " slot_offset=").length = 13 := rfl
  have h₅ : (textBytes " buffer_offset=").length = 15 := rfl
  have h₆ : (textBytes " | ").length = 3 := rfl
  unfold recordText
  simp only [List.length_append]
  omega

/-! ## Reading a record -/

/-- The first number of a text that goes on after a blank. -/
theorem field_inj {label r r' : List UInt8} {n n' : ℕ}
    (h : label ++ (paddedDecimal n ++ 32 :: r) = label ++ (paddedDecimal n' ++ 32 :: r')) :
    n = n' ∧ r = r' := by
  have hblank : ∀ m, (32 : UInt8) ∉ paddedDecimal m := by
    intro m hmem
    have hdigit := digit_of_mem_paddedDecimal hmem
    exact absurd hdigit (by decide)
  obtain ⟨hnumber, hrest⟩ := field_of_append (hblank n) (hblank n') (List.append_cancel_left h)
  exact ⟨paddedDecimal_injective hnumber, hrest⟩

/-- The text field by field. -/
theorem fillUp_recordText (offset iteration : ℕ) (opt : Options) :
    ∃ dots, fillUp (recordText offset iteration opt) =
      textBytes "UCM iter=" ++ (paddedDecimal iteration ++ 32 :: (textBytes "block=" ++
        (paddedDecimal (offset / opt.slotBytes / opt.shards) ++ 32 :: (textBytes "shard=" ++
          (paddedDecimal (offset / opt.slotBytes % opt.shards) ++ 32 :: (textBytes "slot_offset=" ++
            (paddedDecimal (offset % opt.slotBytes) ++ 32 :: (textBytes "buffer_offset=" ++
              (paddedDecimal offset ++ 32 :: (textBytes "| " ++ dots)))))))))) := by
  have h₁ : textBytes " block=" = 32 :: textBytes "block=" := rfl
  have h₂ : textBytes " shard=" = 32 :: textBytes "shard=" := rfl
  have h₃ : textBytes " slot_offset=" = 32 :: textBytes "slot_offset=" := rfl
  have h₄ : textBytes " buffer_offset=" = 32 :: textBytes "buffer_offset=" := rfl
  have h₅ : textBytes " | " = 32 :: textBytes "| " := rfl
  refine ⟨List.replicate (127 - (recordText offset iteration opt).length) 46 ++ [10], ?_⟩
  unfold fillUp
  conv_lhs => arg 1; arg 1; unfold recordText
  simp only [h₁, h₂, h₃, h₄, h₅, List.append_assoc, List.cons_append]

/-- A record says to which place and iteration it belongs. -/
theorem textRecord_injective {offset offset' n n' : ℕ} {opt : Options} {bytes : List UInt8}
    (h : textRecord offset n opt = some bytes) (h' : textRecord offset' n' opt = some bytes) :
    n = n' ∧ offset = offset' := by
  rw [textRecord_eq] at h h'
  have hbytes := (Option.ite_none_left_eq_some.mp h).2
  have hbytes' := (Option.ite_none_left_eq_some.mp h').2
  obtain ⟨dots, htext⟩ := fillUp_recordText offset n opt
  obtain ⟨dots', htext'⟩ := fillUp_recordText offset' n' opt
  rw [← hbytes', Option.some.injEq, htext, htext'] at hbytes
  obtain ⟨hiteration, hbytes⟩ := field_inj hbytes
  obtain ⟨-, hbytes⟩ := field_inj hbytes
  obtain ⟨-, hbytes⟩ := field_inj hbytes
  obtain ⟨-, hbytes⟩ := field_inj hbytes
  obtain ⟨hoffset, -⟩ := field_inj hbytes
  exact ⟨hiteration, hoffset⟩

/-! ## The bytes of a record -/

/-- A byte of a label, a digit or a dot. -/
def Printed (b : UInt8) : Prop := b.toNat ≠ 0 ∧ b.toNat ≠ 10 ∧ b.toNat ≠ 255

instance (b : UInt8) : Decidable (Printed b) := inferInstanceAs (Decidable (_ ∧ _))

theorem printed_recordText {offset iteration : ℕ} {opt : Options} :
    ∀ b ∈ recordText offset iteration opt, Printed b := by
  have hnumber : ∀ n, ∀ b ∈ paddedDecimal n, Printed b := by
    intro n b hb
    have hdigit := digit_of_mem_paddedDecimal hb
    exact ⟨by omega, by omega, by omega⟩
  have h₁ : ∀ b ∈ textBytes "UCM iter=", Printed b := by decide +kernel
  have h₂ : ∀ b ∈ textBytes " block=", Printed b := by decide +kernel
  have h₃ : ∀ b ∈ textBytes " shard=", Printed b := by decide +kernel
  have h₄ : ∀ b ∈ textBytes " slot_offset=", Printed b := by decide +kernel
  have h₅ : ∀ b ∈ textBytes " buffer_offset=", Printed b := by decide +kernel
  have h₆ : ∀ b ∈ textBytes " | ", Printed b := by decide +kernel
  unfold recordText
  intro b hb
  simp only [List.mem_append] at hb
  grind

theorem textRecord_eq_some {offset n : ℕ} (opt : Options) (hoffset : offset ≤ maxBytes)
    (hn : n ≤ maxBytes) :
    textRecord offset n opt = some (fillUp (recordText offset n opt)) := by
  have hfits : (recordText offset n opt).length ≤ 119 := length_recordText_le hoffset hn
  rw [textRecord_eq, if_neg (by omega)]

/-- The only newline is the last byte, and the byte before LOAD and the byte of a hole do
not occur. -/
theorem getD_fillUp {text : List UInt8} (htext : ∀ b ∈ text, Printed b) (hfits : text.length < 128)
    {j : ℕ} (hj : j < 128) :
    (fillUp text).getD j 0 ≠ 0 ∧ (fillUp text).getD j 0 ≠ 255 ∧
      ((fillUp text).getD j 0 = 10 ↔ j = 127) := by
  have hdots : ∀ b ∈ text ++ List.replicate (127 - text.length) 46, Printed b := by
    intro b hb
    rcases List.mem_append.mp hb with hmem | hdot
    · exact htext b hmem
    · rw [(List.mem_replicate.mp hdot).2]
      decide
  have hlength : (text ++ List.replicate (127 - text.length) (46 : UInt8)).length = 127 := by
    rw [List.length_append, List.length_replicate]
    omega
  unfold fillUp
  by_cases hlast : j = 127
  · subst hlast
    rw [List.getD_append_right _ _ _ _ (by omega), hlength]
    decide
  · have hlt : j < (text ++ List.replicate (127 - text.length) (46 : UInt8)).length := by omega
    rw [List.getD_append _ _ _ _ hlt, List.getD_eq_getElem _ _ hlt]
    obtain ⟨hzero, hnewline, hpoison⟩ := hdots _ (List.getElem_mem hlt)
    refine ⟨fun h => hzero (by rw [h]; rfl), fun h => hpoison (by rw [h]; rfl), fun h => ?_,
      fun h => absurd h hlast⟩
    exact absurd (by rw [h]; rfl) hnewline

/-! ## The filled buffer -/

section Filled

variable {opt : Options} {n o : ℕ}

theorem fillByte_eq (hn : n ≤ maxBytes) (ho : o ≤ maxBytes) :
    fillByte opt n o = (fillUp (recordText (o / 128 * 128) n opt)).getD (o % 128) 0 := by
  unfold fillByte
  rw [textRecord_eq_some opt (by omega) hn, Option.getD_some]

theorem fillByte_printed (hn : n ≤ maxBytes) (ho : o ≤ maxBytes) :
    fillByte opt n o ≠ 0 ∧ fillByte opt n o ≠ 255 ∧ (fillByte opt n o = 10 ↔ o % 128 = 127) := by
  rw [fillByte_eq hn ho]
  have hfits : (recordText (o / 128 * 128) n opt).length ≤ 119 := length_recordText_le (by omega) hn
  exact getD_fillUp printed_recordText (by omega) (Nat.mod_lt _ (by decide))

/-- The newlines stand at the ends of the records. -/
theorem framed_fillByte (hn : n ≤ maxBytes) : Framed 128 maxBytes 10 (fillByte opt n) :=
  fun _ ho => (fillByte_printed hn ho.le).2.2

theorem length_fillUp {text : List UInt8} (h : text.length < 128) : (fillUp text).length = 128 := by
  unfold fillUp
  rw [List.length_append, List.length_append, List.length_replicate, List.length_singleton]
  omega

/-- A whole record shows the iteration and the place. -/
theorem record_inj {n' q q' : ℕ} (hn : n ≤ maxBytes) (hn' : n' ≤ maxBytes)
    (hq : q * 128 + 128 ≤ maxBytes) (hq' : q' * 128 + 128 ≤ maxBytes)
    (hsame : ∀ r < 128, fillByte opt n (q * 128 + r) = fillByte opt n' (q' * 128 + r)) :
    n = n' ∧ q = q' := by
  have hbyte : ∀ m p r, m ≤ maxBytes → p * 128 + 128 ≤ maxBytes → r < 128 →
      fillByte opt m (p * 128 + r) = (fillUp (recordText (p * 128) m opt)).getD r 0 := by
    intro m p r hm hp hr
    have hbase : (p * 128 + r) / 128 * 128 = p * 128 := by omega
    have hoffset : (p * 128 + r) % 128 = r := by omega
    rw [fillByte_eq hm (by omega), hbase, hoffset]
  have hlength : ∀ m p, m ≤ maxBytes → p * 128 + 128 ≤ maxBytes →
      (fillUp (recordText (p * 128) m opt)).length = 128 := by
    intro m p hm hp
    have hfits : (recordText (p * 128) m opt).length ≤ 119 := length_recordText_le (by omega) hm
    exact length_fillUp (by omega)
  have hrecords : fillUp (recordText (q * 128) n opt) = fillUp (recordText (q' * 128) n' opt) := by
    apply List.ext_getElem
    · rw [hlength n q hn hq, hlength n' q' hn' hq']
    · intro r hr hr'
      rw [hlength n q hn hq] at hr
      have h := hsame r hr
      rw [hbyte n q r hn hq hr, hbyte n' q' r hn' hq' hr] at h
      rwa [List.getD_eq_getElem, List.getD_eq_getElem] at h
  have h := textRecord_eq_some opt (show q * 128 ≤ maxBytes by omega) hn
  have h' := textRecord_eq_some opt (show q' * 128 ≤ maxBytes by omega) hn'
  rw [← hrecords] at h'
  obtain ⟨hiteration, hoffset⟩ := textRecord_injective h h'
  exact ⟨hiteration, by omega⟩

/-- Slots that are filled with the same bytes are the same slot of the same iteration. -/
theorem slot_inj {n' i j : ℕ} (hslot : 255 ≤ opt.slotBytes) (hn : n ≤ maxBytes)
    (hn' : n' ≤ maxBytes)
    (hi : (i + 1) * opt.slotBytes ≤ maxBytes) (hj : (j + 1) * opt.slotBytes ≤ maxBytes)
    (hsame : ∀ k < opt.slotBytes,
      fillByte opt n' (j * opt.slotBytes + k) = fillByte opt n (i * opt.slotBytes + k)) :
    n' = n ∧ j = i := by
  rw [Nat.add_mul, Nat.one_mul] at hi hj
  obtain ⟨q, q', k, hq, hq', hk⟩ := (framed_fillByte hn').common_frame (framed_fillByte hn)
    (by decide) (by omega) hj hi hsame
  have hrecord : n' = n ∧ q = q' := by
    apply record_inj hn' hn (by omega) (by omega)
    intro r hr
    rw [← hq, ← hq', Nat.add_assoc, Nat.add_assoc]
    exact hsame (k + r) (by omega)
  obtain ⟨hiteration, rfl⟩ := hrecord
  refine ⟨hiteration, Nat.eq_of_mul_eq_mul_right (show 0 < opt.slotBytes by omega) ?_⟩
  omega

end Filled

end SharingProbe.HalAio
