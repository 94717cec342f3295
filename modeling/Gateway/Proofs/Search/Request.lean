import Gateway.Discovery
import Gateway.Proofs.Utf8
/-!
# Search requests in a buffer

A piece of a request is written behind the one before it or not at all (`Cursor.Holds.write`), and
after one that finds no room nothing more is written. So a buffer holds the request up to the end
of some piece, and is as it was behind that (`write_fits`).
-/
namespace Gateway

open Utf8 (Bytes encode decode?)

/-! ## Pieces -/

namespace Cursor

/-- These pieces have been written to a buffer, and nothing else has. -/
structure Holds (c : Cursor) (buffer : Bytes) (written : List Text) : Prop where
  position_eq : c.position = (encode written.flatten).length
  buffer_eq : c.buffer = encode written.flatten ++ buffer.drop c.position
  fits : c.position ≤ buffer.length

variable {c c' : Cursor} {buffer : Bytes} {written : List Text} {piece : Text}

theorem write?_eq_some : c.write? piece = some c' ↔ c.position + (encode piece).length ≤ c.buffer.length ∧
    c' = ⟨c.buffer.take c.position ++ encode piece ++ c.buffer.drop (c.position + (encode piece).length),
      c.position + (encode piece).length⟩ := by
  simp only [write?, Option.ite_none_right_eq_some, Option.some.injEq]
  exact and_congr_right fun _ => eq_comm

theorem write?_eq_none : c.write? piece = none ↔ c.buffer.length < c.position + (encode piece).length := by
  simp only [write?, ite_eq_right_iff, reduceCtorEq, imp_false, Nat.not_le]

namespace Holds

/-- A buffer never gets longer or shorter. -/
theorem length_eq (h : c.Holds buffer written) : c.buffer.length = buffer.length := by
  have hfits := h.fits
  rw [h.buffer_eq, List.length_append, ← h.position_eq, List.length_drop]
  omega

theorem take_eq (h : c.Holds buffer written) : c.buffer.take c.position = encode written.flatten := by
  rw [h.buffer_eq, h.position_eq, List.take_left]

theorem drop_eq (h : c.Holds buffer written) (n : Nat) :
    c.buffer.drop (c.position + n) = buffer.drop (c.position + n) := by
  rw [h.buffer_eq, h.position_eq, ← List.drop_drop, List.drop_left, List.drop_drop]

theorem write (h : c.Holds buffer written) (hw : c.write? piece = some c') : c'.Holds buffer (written ++ [piece]) := by
  obtain ⟨hfits, rfl⟩ := write?_eq_some.1 hw
  have hflatten : (written ++ [piece]).flatten = written.flatten ++ piece := by simp
  refine ⟨?_, ?_, h.length_eq ▸ hfits⟩
  · rw [hflatten, Utf8.encode_append, List.length_append, h.position_eq]
  · rw [hflatten, Utf8.encode_append, h.take_eq, h.drop_eq]

/-- Of some pieces those in front are written, up to one that finds no room if there is any. -/
theorem writeAll (h : c.Holds buffer written) (pieces : List Text) : ∃ more rest, pieces = more ++ rest ∧
    (c.writeAll pieces).Holds buffer (written ++ more) ∧
    ∀ piece ∈ rest.head?, buffer.length < (c.writeAll pieces).position + (encode piece).length := by
  induction pieces generalizing c written with
  | nil => exact ⟨[], [], rfl, by rwa [List.append_nil], nofun⟩
  | cons piece pieces ih =>
    rw [Cursor.writeAll]
    cases hw : c.write? piece with
    | none =>
      have hroom := write?_eq_none.1 hw
      rw [h.length_eq] at hroom
      exact ⟨[], piece :: pieces, rfl, by rwa [List.append_nil], fun p hp => Option.some.inj hp ▸ hroom⟩
    | some c' =>
      obtain ⟨more, rest, rfl, hholds, hroom⟩ := ih (h.write hw)
      exact ⟨piece :: more, rest, rfl, by simpa using hholds, hroom⟩

end Holds

end Cursor

/-! ## Requests -/

namespace SearchRequest

theorem text_eq_lines (r : SearchRequest) : r.text = "M-SEARCH * HTTP/1.1\r\nHOST: ".toList ++ r.host.text ++
    "\r\nST: ".toList ++ r.target ++ "\r\nMAN: \"ssdp:discover\"\r\nMX: ".toList ++ Text.decimal r.mx ++
    "\r\nUSER-AGENT: ".toList ++ r.userAgent ++ "\r\n\r\n".toList := by
  simp only [text, pieces, Endpoint.text, List.flatten_append, List.flatten_cons, List.flatten_nil, List.append_nil,
    List.append_assoc, List.cons_append]

theorem mx_infix_text (r : SearchRequest) : "\r\nMX: ".toList ++ Text.decimal r.mx ++ "\r\n".toList <:+: r.text := by
  have hfront : "\r\nMAN: \"ssdp:discover\"\r\nMX: ".toList = "\r\nMAN: \"ssdp:discover\"".toList ++ "\r\nMX: ".toList := rfl
  have hback : "\r\nUSER-AGENT: ".toList = "\r\n".toList ++ "USER-AGENT: ".toList := rfl
  refine ⟨"M-SEARCH * HTTP/1.1\r\nHOST: ".toList ++ r.host.text ++ "\r\nST: ".toList ++ r.target ++
    "\r\nMAN: \"ssdp:discover\"".toList, "USER-AGENT: ".toList ++ r.userAgent ++ "\r\n\r\n".toList, ?_⟩
  rw [text_eq_lines, hfront, hback]
  simp only [List.append_assoc]

-- one byte is left of the buffer, which the second piece of the host would fill; but the first, of two, comes before it
example : (SearchRequest.write ⟨⟨.v4 ⟨10, 0, 0, 1⟩, 1900, 0⟩, [], 2, []⟩ (List.replicate 28 0)).2 = 27 := by decide

end SearchRequest

/-! ## The time that is allowed -/

namespace Config

theorem mx_of_short {c : Config} (h : c.searchWait.nanoseconds < Duration.perSecond) : c.mx = 1 := by
  rw [mx, Duration.seconds, Nat.div_eq_of_lt h, Nat.max_eq_right (Nat.zero_le 1)]

theorem ofSeconds_mx_le {c : Config} (h : Duration.perSecond ≤ c.searchWait.nanoseconds) :
    (Duration.ofSeconds c.mx).nanoseconds ≤ c.searchWait.nanoseconds := by
  have hone : 1 ≤ c.searchWait.seconds := Nat.div_pos h (by decide)
  rw [mx, Nat.max_eq_left hone]
  exact Nat.div_mul_le_self _ _

/-- A search says in each request how many seconds an answer may take. It listens for so long and the grace exactly if
it is set to wait for a second at least. If not, a whole second is allowed all the same, and the search ends too early
by what its wait lacks of a second. -/
theorem searchDeadline_covers_iff (c : Config)
    (h : c.searchWait.nanoseconds + c.grace.nanoseconds < 0x10000000000000000 * Duration.perSecond) :
    ∃ d, c.searchDeadline? = some d ∧
      (∀ r ∈ SearchRequest.ofConfig c, "\r\nMX: ".toList ++ Text.decimal c.mx ++ "\r\n".toList <:+: r.text) ∧
      ((Duration.ofSeconds c.mx).nanoseconds + c.grace.nanoseconds ≤ d.nanoseconds ↔
        Duration.perSecond ≤ c.searchWait.nanoseconds) ∧
      (c.searchWait.nanoseconds < Duration.perSecond → c.mx = 1 ∧
        (Duration.ofSeconds c.mx).nanoseconds + c.grace.nanoseconds =
          d.nanoseconds + (Duration.perSecond - c.searchWait.nanoseconds)) := by
  have hsum : c.searchDeadline? = some ⟨c.searchWait.nanoseconds + c.grace.nanoseconds⟩ := if_pos h
  have hshort : c.searchWait.nanoseconds < Duration.perSecond →
      (Duration.ofSeconds c.mx).nanoseconds = Duration.perSecond := by
    intro hlt
    rw [mx_of_short hlt]
    rfl
  refine ⟨_, hsum, fun r hr => ?_, ⟨fun hcovers => ?_, fun hlong => ?_⟩, fun hlt => ⟨mx_of_short hlt, ?_⟩⟩
  · obtain ⟨target, -, rfl⟩ := List.mem_map.1 hr
    exact SearchRequest.mx_infix_text ⟨c.searchAddress, target, c.mx, c.userAgent⟩
  · by_contra hlt
    have := hshort (Nat.lt_of_not_le hlt)
    dsimp only at hcovers
    omega
  · exact Nat.add_le_add_right (ofSeconds_mx_le hlong) _
  · rw [hshort hlt]
    dsimp only
    omega

/-- A wait that lacks a nanosecond of the second that is allowed, and no grace. -/
theorem searchDeadline_covers_iff_nearly :
    ∃ d, searchDeadline? { searchWait := ⟨999999999⟩, grace := ⟨0⟩ } = some d ∧
      (Duration.ofSeconds 1).nanoseconds = d.nanoseconds + 1 := by
  obtain ⟨d, hd, -, -, hshort⟩ := searchDeadline_covers_iff { searchWait := ⟨999999999⟩, grace := ⟨0⟩ } (by decide)
  exact ⟨d, hd, (hshort (by decide)).2⟩

/-- It is not so that a search listens for as long as it allows an answer to take: with a wait of 300 milliseconds it
allows a second. -/
theorem not_covered : ¬ ∀ (c : Config) (d : Duration), c.searchDeadline? = some d →
    (Duration.ofSeconds c.mx).nanoseconds + c.grace.nanoseconds ≤ d.nanoseconds := by
  intro h
  exact absurd (h { searchWait := .ofMilliseconds 300 } ⟨500000000⟩ (by decide)) (by decide)

end Config

end Gateway
