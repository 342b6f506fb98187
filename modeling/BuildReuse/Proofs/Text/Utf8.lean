import BuildReuse.Text.Utf8
import Mathlib.Data.List.Basic

/-! Written characters are read back, and bytes that stop inside a character are no
text. -/
namespace BuildReuse

def Cut {α : Type} (part whole : List α) : Prop := part <+: whole ∧ part ≠ whole

namespace Cut

variable {α : Type} {a : α} {part first last : List α}

theorem ofNil (cut : Cut part ([] : List α)) : False := cut.2 (List.prefix_nil.mp cut.1)

theorem ofCons (cut : Cut part (a :: last)) : part = [] ∨ ∃ behind, part = a :: behind ∧ Cut behind last := by
  rcases List.prefix_cons_iff.mp cut.1 with empty | ⟨behind, rfl, begins⟩
  · exact .inl empty
  · exact .inr ⟨behind, rfl, begins, fun same => cut.2 (same ▸ rfl)⟩

theorem ofAppend (cut : Cut part (first ++ last)) :
    Cut part first ∨ ∃ behind, part = first ++ behind ∧ Cut behind last := by
  induction first generalizing part with
  | nil => exact .inr ⟨part, rfl, cut⟩
  | cons a first ih =>
    rcases ofCons cut with rfl | ⟨behind, rfl, beyond⟩
    · exact .inl ⟨List.nil_prefix, nofun⟩
    · rcases ih beyond with ⟨begins, short⟩ | ⟨rest, rfl, last⟩
      · exact .inl ⟨List.cons_prefix_cons.mpr ⟨rfl, begins⟩, fun same => short (List.cons.inj same).2⟩
      · exact .inr ⟨rest, rfl, last⟩

theorem taken (cut : Cut part last) : ∃ n < last.length, part = last.take n :=
  ⟨part.length, Nat.lt_of_le_of_ne cut.1.length_le fun same => cut.2 (cut.1.eq_of_length same),
    List.prefix_iff_eq_take.mp cut.1⟩

end Cut

namespace Utf8

inductive Spells (c : Char) : State → Bytes → Prop where
  | last {s b} (ends : step s b = ([some c], .ready)) : Spells c s [b]
  | more {s b bits missing least greatest rest}
      (passes : step s b = ([], .within bits missing least greatest))
      (onward : Spells c (.within bits missing least greatest) rest) : Spells c s (b :: rest)

namespace Spells

variable {c : Char} {s : State} {bytes : Bytes}

theorem scan (spells : Spells c s bytes) (rest : Bytes) :
    Utf8.scan s (bytes ++ rest) = some c :: Utf8.scan .ready rest := by
  induction spells with
  | last ends => cases s <;> simp [Utf8.scan, ends]
  | @more s b _ _ _ _ _ passes onward ih => cases s <;> simp [Utf8.scan, passes, ih]

theorem ofCut (spells : Spells c s bytes) {part : Bytes} (cut : Cut part bytes) :
    part = [] ∨ Utf8.scan s part = [none] := by
  induction spells generalizing part with
  | last =>
    rcases cut.ofCons with empty | ⟨behind, rfl, beyond⟩
    · exact .inl empty
    · exact beyond.ofNil.elim
  | @more s b bits missing least greatest _ passes onward ih =>
    rcases cut.ofCons with empty | ⟨behind, rfl, beyond⟩
    · exact .inl empty
    · have unended : Utf8.scan (.within bits missing least greatest) behind = [none] := by
        rcases ih beyond with rfl | unended
        · rfl
        · exact unended
      refine .inr ?_
      cases s <;> simp [Utf8.scan, passes, unended]

end Spells

theorem startOfNat {n : Nat} (byte : n < 256) : start (UInt8.ofNat n) =
    if n < 0x80 then ([some (Char.ofNat n)], .ready)
    else if n < 0xC2 then ([none], .ready)
    else if n < 0xE0 then ([], .within (n - 0xC0) 1 0x80 0xBF)
    else if n < 0xF0 then
      ([], .within (n - 0xE0) 2 (if n = 0xE0 then 0xA0 else 0x80) (if n = 0xED then 0x9F else 0xBF))
    else if n < 0xF5 then
      ([], .within (n - 0xF0) 3 (if n = 0xF0 then 0x90 else 0x80) (if n = 0xF4 then 0x8F else 0xBF))
    else ([none], .ready) := by
  have same (k : UInt8) : UInt8.ofNat n = k ↔ n = k.toNat := by
    rw [← UInt8.toNat_inj, UInt8.toNat_ofNat_of_lt' byte]
  simp only [start, UInt8.lt_iff_toNat_lt, UInt8.toNat_ofNat_of_lt' byte, same]
  rfl

theorem startTwo {n : Nat} (least : 2 ≤ n) (five : n < 32) :
    start (UInt8.ofNat (n + 192)) = ([], .within n 1 0x80 0xBF) := by
  rw [startOfNat (by omega), if_neg (by omega), if_neg (by omega), if_pos (by omega),
    Nat.add_sub_cancel]

theorem startThree {n : Nat} (four : n < 16) : start (UInt8.ofNat (n + 224)) =
    ([], .within n 2 (if n = 0 then 0xA0 else 0x80) (if n = 13 then 0x9F else 0xBF)) := by
  rw [startOfNat (by omega), if_neg (by omega), if_neg (by omega), if_neg (by omega),
    if_pos (by omega), Nat.add_sub_cancel]
  simp only [Nat.reduceEqDiff, Nat.add_eq_right]

theorem startFour {n : Nat} (last : n < 5) : start (UInt8.ofNat (n + 240)) =
    ([], .within n 3 (if n = 0 then 0x90 else 0x80) (if n = 4 then 0x8F else 0xBF)) := by
  rw [startOfNat (by omega), if_neg (by omega), if_neg (by omega), if_neg (by omega),
    if_neg (by omega), if_pos (by omega), Nat.add_sub_cancel]
  simp only [Nat.reduceEqDiff, Nat.add_eq_right]

theorem stepWithin {n bits missing : Nat} {least greatest : UInt8} (byte : n < 256)
    (above : least.toNat ≤ n) (below : n ≤ greatest.toNat) :
    step (.within bits missing least greatest) (UInt8.ofNat n) =
      if missing ≤ 1 then ([some (Char.ofNat (bits * 64 + (n - 0x80)))], .ready)
      else ([], .within (bits * 64 + (n - 0x80)) (missing - 1) 0x80 0xBF) := by
  have between : (decide (least ≤ UInt8.ofNat n) && decide (UInt8.ofNat n ≤ greatest)) = true := by
    simp [UInt8.le_iff_toNat_le, UInt8.toNat_ofNat_of_lt' byte, above, below]
  simp only [step, between, if_true, UInt8.toNat_ofNat_of_lt' byte]

namespace Spells

variable {c : Char} {bits n : Nat} {least greatest : UInt8} {rest : Bytes}

theorem closing (whole : bits * 64 + n = c.toNat) (six : n < 64) (above : least.toNat ≤ n + 128)
    (below : n + 128 ≤ greatest.toNat) :
    Spells c (.within bits 1 least greatest) [UInt8.ofNat (n + 128)] := by
  refine .last ?_
  rw [stepWithin (by omega) above below, if_pos (Nat.le_refl 1), Nat.add_sub_cancel, whole,
    Char.ofNat_toNat]

theorem following {missing : Nat} (several : 1 < missing) (six : n < 64)
    (above : least.toNat ≤ n + 128) (below : n + 128 ≤ greatest.toNat)
    (onward : Spells c (.within (bits * 64 + n) (missing - 1) 0x80 0xBF) rest) :
    Spells c (.within bits missing least greatest) (UInt8.ofNat (n + 128) :: rest) := by
  refine .more ?_ onward
  rw [stepWithin (by omega) above below, if_neg (by omega), Nat.add_sub_cancel]

end Spells

theorem spellsEncoded (c : Char) : Spells c .ready (String.utf8EncodeChar c) := by
  have valid : c.toNat < 0xD800 ∨ 0xDFFF < c.toNat ∧ c.toNat < 0x110000 := c.valid
  have lowest : (0x80 : UInt8).toNat = 128 := rfl
  have highest : (0xBF : UInt8).toNat = 191 := rfl
  simp only [String.utf8EncodeChar, Char.toNat_val]
  split
  case isTrue one =>
    refine .last ?_
    rw [step, startOfNat (by omega), if_pos (by omega), Char.ofNat_toNat]
  case isFalse =>
  split
  case isTrue two =>
    exact .more (startTwo (by omega) (by omega))
      (.closing (by omega) (by omega) (by omega) (by omega))
  case isFalse =>
  split
  case isTrue three =>
    refine .more (startThree (by omega))
      (.following (by omega) (by omega) ?_ ?_
        (.closing (by omega) (by omega) (by omega) (by omega)))
    · split
      case isTrue => change 160 ≤ _; omega
      case isFalse => omega
    · split
      case isTrue => change _ ≤ 159; omega
      case isFalse => omega
  case isFalse =>
    refine .more (startFour (by omega))
      (.following (by omega) (by omega) ?_ ?_
        (.following (by omega) (by omega) (by omega) (by omega)
          (.closing (by omega) (by omega) (by omega) (by omega))))
    · split
      case isTrue => change 144 ≤ _; omega
      case isFalse => omega
    · split
      case isTrue => change _ ≤ 143; omega
      case isFalse => omega

theorem decodeNext (c : Char) (bytes : Bytes) :
    decode? (String.utf8EncodeChar c ++ bytes) = (decode? bytes).map (c :: ·) := by
  rw [decode?, (spellsEncoded c).scan, List.mapM_cons, decode?]
  cases (scan .ready bytes).mapM id <;> rfl

theorem decodeEncode (cs : List Char) : decode? (encode cs) = some cs := by
  induction cs with
  | nil => rfl
  | cons c cs ih =>
    rw [encode, List.flatMap_cons, decodeNext]
    exact congrArg (Option.map (c :: ·)) ih

theorem decodeCut {cs : List Char} {bytes : Bytes} (cut : Cut bytes (encode cs)) :
    decode? bytes = none ∨ ∃ ds, decode? bytes = some ds ∧ Cut ds cs := by
  induction cs generalizing bytes with
  | nil => exact cut.ofNil.elim
  | cons c cs ih =>
    rw [encode, List.flatMap_cons] at cut
    rcases cut.ofAppend with inside | ⟨behind, rfl, beyond⟩
    · rcases (spellsEncoded c).ofCut inside with rfl | unended
      · exact .inr ⟨[], rfl, List.nil_prefix, nofun⟩
      · left
        rw [decode?, unended]
        rfl
    · rw [decodeNext]
      rcases ih beyond with faulty | ⟨ds, read, begins, short⟩
      · exact .inl (by rw [faulty]; rfl)
      · refine .inr ⟨c :: ds, by rw [read]; rfl, List.cons_prefix_cons.mpr ⟨rfl, begins⟩, ?_⟩
        exact fun same => short (List.cons.inj same).2

end Utf8
end BuildReuse
