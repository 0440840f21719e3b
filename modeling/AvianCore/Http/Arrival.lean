import AvianCore.Http.Request
import AvianCore.Http.Response

/-!
Heads that arrive in pieces. However a head is cut, both parsers come to the same result; and a buffer
beyond the limit is failed, except where a parser comes to its end without looking at the limit.
-/

namespace AvianCore.Http

/-- A parser for which it does not matter how its bytes arrive. -/
structure InPieces {H : Type} (parse : Bytes → ParseResult H) (headEnd : H → Nat) : Prop where
  complete : ∀ b c head headers, parse b = .complete head headers → parse (b ++ c) = .complete head headers
  failure : ∀ b c e, parse b = .failure e → ∀ head headers, parse (b ++ c) ≠ .complete head headers
  incomplete : ∀ b head headers, parse b = .complete head headers →
    ∀ part rest, b.take (headEnd head) = part ++ rest → rest ≠ [] → parse part = .incomplete

theorem Scans.inPieces {H : Type} {maxHeadSize : Int} {parse : Bytes → ParseResult H}
    {scan : Nat → Lib.Scanner UInt8 ParseError (H × List HeaderRef)} {headEnd : H → Nat}
    (scans : Scans maxHeadSize parse scan headEnd) : InPieces parse headEnd where
  complete _ c _ _ complete := scans.complete_append complete c
  failure _ c _ failed _ _ := scans.failure_append failed c
  incomplete _ _ _ complete _ _ split proper := scans.incomplete_of_prefix complete split proper

/-- What has been accepted stays as it is when more arrives, what has been refused is never accepted,
and every proper prefix of an accepted head waits for more. -/
theorem parse_inPieces (maxHeadSize maxHeaders : Int) :
    InPieces (fun b => HTTPParser.parse b maxHeadSize maxHeaders {}) RequestHead.headEnd ∧
      InPieces (fun b => HTTPResponseParser.parse b maxHeadSize maxHeaders {}) ResponseHead.headEnd :=
  ⟨(scans_request maxHeadSize maxHeaders {}).inPieces, (scans_response maxHeadSize maxHeaders {}).inPieces⟩

/-- Beyond the limit the parsers wait for more exactly where they do not look at it. -/
theorem parse_incomplete_iff (maxHeadSize maxHeaders : Int) {b : Bytes} (beyond : maxHeadSize + 10 < b.length) :
    (HTTPParser.parse b maxHeadSize maxHeaders {} ≠ .incomplete ↔ ¬ UnendedRequest maxHeadSize maxHeaders {} b) ∧
      (HTTPResponseParser.parse b maxHeadSize maxHeaders {} ≠ .incomplete ↔
        ¬ UnendedResponse maxHeadSize maxHeaders {} b) := by
  have large : ¬ (b.length : Int) ≤ maxHeadSize := by omega
  constructor
  · rw [← requestHead_starved_none (Nat.lt_succ_self b.length)]
    unfold HTTPParser.parse
    rw [ne_eq, conclude_incomplete]
    simp [large]
  · rw [← responseHead_starved_none (Nat.lt_succ_self b.length)]
    unfold HTTPResponseParser.parse
    rw [ne_eq, conclude_incomplete]
    simp [large]

/-- A target that does not end is refused. -/
theorem parse_incomplete_iff_target : HTTPParser.parse (ascii "GET /" ++ List.replicate 40 97) 16 8 {} ≠ .incomplete ∧
      ¬ UnendedRequest 16 8 {} (ascii "GET /" ++ List.replicate 40 97) := by
  have iff := (parse_incomplete_iff 16 8 (by decide :
    (16 : Int) + 10 < (ascii "GET /" ++ List.replicate 40 97).length)).1
  have failed : HTTPParser.parse (ascii "GET /" ++ List.replicate 40 97) 16 8 {} ≠ .incomplete := by
    decide +kernel
  exact ⟨failed, iff.mp failed⟩

/-- Line ends, a method of any length, a field name, the whitespace before a value, and a reason phrase
are waited for however much arrives. -/
theorem parse_waits_beyond : HTTPParser.parse (List.replicate 40 cLF) 16 8 {} = .incomplete ∧
      HTTPParser.parse (List.replicate 40 97 ++ ascii " / HTTP/1.1") 16 8 {} = .incomplete ∧
      HTTPParser.parse (ascii "G / HTTP/1.1\r\n" ++ List.replicate 40 97) 16 8 {} = .incomplete ∧
      HTTPParser.parse (ascii "G / HTTP/1.1\r\na:" ++ List.replicate 40 cSP) 16 8 {} = .incomplete ∧
      HTTPResponseParser.parse (ascii "HTTP/1.1 200 " ++ List.replicate 40 97 ++ [cCR]) 16 8 {} =
        .incomplete := by
  decide +kernel

end AvianCore.Http
