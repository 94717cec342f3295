import Gateway.Net.Address
import Gateway.Proofs.Numeral
import Gateway.Proofs.Text
/-!
# Addresses written and read

The text of an address is made of digits, points and colons (`IpAddress.mem_addressChars_of_mem_text`).
Reading that of an IPv4 address gives the address back (`IpAddress.parse?_text`), whatever text
stands behind it that does not go on with a digit (`readIpv4_append`).
-/
namespace Gateway

open Text (decimal)

variable {rest : Text}

/-! ## Bytes -/

theorem readByte_append (b : UInt8) (hrest : ∀ c ∈ rest.head?, c.isDigit = false) :
    readByte (decimal b.toNat ++ rest) = some (b, rest) := by
  obtain ⟨htake, hdrop⟩ := Text.takeWhile_dropWhile_append Char.isDigit rest
    (fun _ => Text.isDigit_of_mem_decimal (n := b.toNat)) hrest
  have hb : b.toNat < 256 := b.toNat_lt
  have hlength : (decimal b.toNat).length ≤ 3 :=
    Text.length_decimal_le (by decide) (Nat.lt_of_lt_of_le hb (by decide))
  have hvalue : Nat.ofDigitChars 10 (decimal b.toNat) 0 = b.toNat := Nat.ofDigitChars_ten_toDigits
  -- a zero in front would be the whole number
  have hzero : ¬ (1 < (decimal b.toNat).length ∧ (decimal b.toNat).head? = some '0') := by
    rintro ⟨hlong, hhead⟩
    by_cases h : 0 < b.toNat
    · exact Text.head?_decimal h hhead
    · rw [Nat.eq_zero_of_not_pos h] at hlong
      exact absurd hlong (by decide)
  have hfits : (decide (decimal b.toNat = []) || decide (3 < (decimal b.toNat).length) ||
      decide (1 < (decimal b.toNat).length) && decide ((decimal b.toNat).head? = some '0') ||
      decide (255 < b.toNat)) = false := by
    simp only [Bool.or_eq_false_iff, Bool.and_eq_false_imp, decide_eq_false_iff_not, decide_eq_true_eq]
    exact ⟨⟨⟨Text.decimal_ne_nil _, by omega⟩, fun h h' => hzero ⟨h, h'⟩⟩, by omega⟩
  simp only [readByte, htake, hdrop, hvalue]
  simp [hfits]

/-! ## Addresses -/

namespace Ipv4

theorem text_eq (x : Ipv4) : x.text = decimal x.a.toNat ++ '.' :: (decimal x.b.toNat ++ '.' ::
    (decimal x.c.toNat ++ '.' :: decimal x.d.toNat)) := by
  simp [text, pieces]

theorem isDigit_or_of_mem_text {x : Ipv4} {c : Char} (h : c ∈ x.text) : c.isDigit = true ∨ c = '.' := by
  simp only [text_eq, List.mem_append, List.mem_cons] at h
  rcases h with h | rfl | h | rfl | h | rfl | h
  all_goals first | exact .inr rfl | exact .inl (Text.isDigit_of_mem_decimal h)

end Ipv4

/-- The endpoint of an IPv4 address, which has no interface. -/
def Ipv4.endpoint (x : Ipv4) (port : UInt16) : Endpoint := { address := .v4 x, port := port }

theorem Ipv4.text_endpoint (x : Ipv4) (port : UInt16) :
    (x.endpoint port).text = x.text ++ ':' :: decimal port.toNat := by
  simp [Endpoint.text, Endpoint.pieces, endpoint, text]

theorem readIpv4_append (x : Ipv4) (hrest : ∀ c ∈ rest.head?, c.isDigit = false) :
    readIpv4 (x.text ++ rest) = some (x, rest) := by
  have hpoint : ∀ s : Text, ∀ c ∈ ('.' :: s).head?, c.isDigit = false := by
    rintro s c ⟨⟩
    rfl
  simp only [readIpv4, Ipv4.text_eq, List.append_assoc, List.cons_append, readByte_append _ (hpoint _),
    readByte_append _ hrest, readAfter, if_true, Option.bind_eq_bind, Option.bind_some, Option.pure_def]

theorem IpAddress.parse?_text (x : Ipv4) : IpAddress.parse? x.text = some (.v4 x) := by
  have hread : readIpv4 (x.text ++ []) = some (x, []) := readIpv4_append x (by simp)
  rw [List.append_nil] at hread
  simp only [IpAddress.parse?, hread, if_true]

/-! ## Characters -/

/-- The characters that addresses are written with. -/
def addressChars : Text := "0123456789abcdef.:".toList

theorem digitChar_mem_addressChars : ∀ d < 16, Nat.digitChar d ∈ addressChars := by decide

/-- A piece of an address is written with these characters. -/
def IsAddressPiece (piece : Text) : Prop := piece ⊆ addressChars

theorem isAddressPiece_toDigits {b : Nat} (hb : 1 < b) (hb' : b ≤ 16) (n : Nat) : IsAddressPiece (Nat.toDigits b n) := by
  intro c hc
  obtain ⟨d, hd, rfl⟩ := Text.exists_digitChar_of_mem_toDigits hb hc
  exact digitChar_mem_addressChars d (by omega)

theorem Ipv4.isAddressPiece_of_mem_pieces {x : Ipv4} : ∀ piece ∈ x.pieces, IsAddressPiece piece := by
  have hbyte : ∀ n, IsAddressPiece (decimal n) := isAddressPiece_toDigits (by decide) (by decide)
  have hpoint : IsAddressPiece ['.'] := by
    unfold IsAddressPiece
    decide
  simp [pieces, hbyte, hpoint]

theorem mem_or_eq_of_mem_intersperse {α : Type} {sep x : α} {l : List α} (h : x ∈ l.intersperse sep) :
    x ∈ l ∨ x = sep := by
  fun_induction List.intersperse sep l with
  | case1 => cases h
  | case2 y => exact .inl h
  | case3 y l _ ih =>
    rcases List.mem_cons.1 h with rfl | h
    · exact .inl List.mem_cons_self
    · rcases List.mem_cons.1 h with rfl | h
      · exact .inr rfl
      · exact (ih h).imp_left (List.mem_cons_of_mem y)

namespace Ipv6

theorem isAddressPiece_of_mem_groupPieces {gs : List UInt16} : ∀ piece ∈ groupPieces gs, IsAddressPiece piece := by
  intro piece h
  rcases mem_or_eq_of_mem_intersperse h with h | rfl
  · obtain ⟨g, -, rfl⟩ := List.mem_map.1 h
    exact isAddressPiece_toDigits (by decide) (by decide) g.toNat
  · unfold IsAddressPiece
    decide

theorem isAddressPiece_of_mem_pieces {x : Ipv6} : ∀ piece ∈ x.pieces, IsAddressPiece piece := by
  have hmapped : IsAddressPiece "::ffff:".toList := by
    unfold IsAddressPiece
    decide
  have hzeros : IsAddressPiece "::".toList := by
    unfold IsAddressPiece
    decide
  unfold pieces
  split
  · exact List.forall_mem_cons.2 ⟨hmapped, Ipv4.isAddressPiece_of_mem_pieces⟩
  · dsimp only
    split
    · exact List.forall_mem_append.2 ⟨isAddressPiece_of_mem_groupPieces,
        List.forall_mem_cons.2 ⟨hzeros, isAddressPiece_of_mem_groupPieces⟩⟩
    · exact isAddressPiece_of_mem_groupPieces

end Ipv6

theorem IpAddress.mem_addressChars_of_mem_text {x : IpAddress} {c : Char} (h : c ∈ x.text) : c ∈ addressChars := by
  obtain ⟨piece, hpiece, hc⟩ := List.mem_flatten.1 h
  cases x with
  | v4 x => exact Ipv4.isAddressPiece_of_mem_pieces piece hpiece hc
  | v6 x => exact Ipv6.isAddressPiece_of_mem_pieces piece hpiece hc

end Gateway
