import BuildReuse.Text.Utf8
import Mathlib.Data.String.Basic

/-! Texts are in the same order as their bytes: of two characters, the bytes of the lesser one
are the lesser from the first byte on in which they differ. -/
namespace BuildReuse.Utf8

theorem byteLess {a b : Nat} {x y : Bytes} (less : a < b) (byte : b < 256) :
    UInt8.ofNat a :: x < UInt8.ofNat b :: y := by
  refine List.cons_lt_cons_iff.mpr (.inl (UInt8.lt_iff_toNat_lt.mpr ?_))
  rwa [UInt8.toNat_ofNat_of_lt' (Nat.lt_trans less byte), UInt8.toNat_ofNat_of_lt' byte]

theorem byteThen {a b : Nat} {x y : Bytes} (byte : b < 256) (upTo : a ≤ b) (rest : a = b → x < y) :
    UInt8.ofNat a :: x < UInt8.ofNat b :: y := by
  rcases Nat.lt_or_eq_of_le upTo with less | rfl
  · exact byteLess less byte
  · exact List.cons_lt_cons_iff.mpr (.inr ⟨rfl, rest rfl⟩)

theorem encodedLess {c d : Char} (less : c < d) (x y : Bytes) :
    String.utf8EncodeChar c ++ x < String.utf8EncodeChar d ++ y := by
  have lower : c.toNat < d.toNat := less
  have last : d.toNat < 0x110000 := by
    rcases d.valid with low | high
    · exact Nat.lt_trans low (by decide)
    · exact high.2
  simp only [String.utf8EncodeChar, Char.toNat_val]
  split
  case isTrue one =>
    split
    case isTrue => exact byteLess lower (by omega)
    case isFalse =>
    split
    case isTrue => exact byteLess (by omega) (by omega)
    case isFalse =>
    split <;> exact byteLess (by omega) (by omega)
  case isFalse =>
  split
  case isTrue two =>
    rw [if_neg (by omega)]
    split
    case isTrue => exact byteThen (by omega) (by omega) fun _ => byteLess (by omega) (by omega)
    case isFalse =>
    split <;> exact byteLess (by omega) (by omega)
  case isFalse =>
  split
  case isTrue three =>
    rw [if_neg (by omega), if_neg (by omega)]
    split
    case isTrue =>
      exact byteThen (by omega) (by omega) fun _ => byteThen (by omega) (by omega) fun _ =>
        byteLess (by omega) (by omega)
    case isFalse => exact byteLess (by omega) (by omega)
  case isFalse =>
    rw [if_neg (by omega), if_neg (by omega), if_neg (by omega)]
    exact byteThen (by omega) (by omega) fun _ => byteThen (by omega) (by omega) fun _ =>
      byteThen (by omega) (by omega) fun _ => byteLess (by omega) (by omega)

theorem appendLess {α : Type} [LT α] [Std.Irrefl (· < · : α → α → Prop)] {x y z : List α} :
    x ++ y < x ++ z ↔ y < z := by
  induction x with
  | nil => exact Iff.rfl
  | cons a x ih =>
    rw [List.cons_append, List.cons_append, List.cons_lt_cons_iff, ih]
    exact ⟨fun less => (less.resolve_left (Std.Irrefl.irrefl a)).2, fun less => .inr ⟨rfl, less⟩⟩

theorem encodeLess : ∀ {cs ds : List Char}, cs < ds → encode cs < encode ds
  | [], d :: ds, _ => by
    have filled : String.utf8EncodeChar d ≠ [] := String.utf8EncodeChar_ne_nil
    obtain ⟨first, rest, bytes⟩ := List.exists_cons_of_ne_nil filled
    rw [encode, encode, List.flatMap_cons, bytes]
    exact .nil
  | c :: cs, d :: ds, less => by
    rw [encode, encode, List.flatMap_cons, List.flatMap_cons]
    rcases List.cons_lt_cons_iff.mp less with lower | ⟨rfl, rest⟩
    · exact encodedLess lower _ _
    · exact appendLess.mpr (encodeLess rest)

end BuildReuse.Utf8

namespace BuildReuse

theorem bytesLess {a b : String} : bytesOf a < bytesOf b ↔ a < b := by
  have onward {a b : String} (less : a < b) : bytesOf a < bytesOf b :=
    Utf8.encodeLess (String.lt_iff_toList_lt.mp less)
  refine ⟨fun less => ?_, onward⟩
  rcases lt_trichotomy a b with before | rfl | behind
  · exact before
  · exact (List.lt_irrefl _ less).elim
  · exact (List.lt_asymm less (onward behind)).elim

end BuildReuse
