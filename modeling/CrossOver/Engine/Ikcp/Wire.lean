import CrossOver.Engine.Ikcp.Protocol

/-!
# Segments on the wire

A packet is a sequence of encoded segments.  Decoding takes it apart again, so
the loop of `ikcp_input` works through exactly the segments `ikcp_flush` put
into the packet.
-/

namespace CrossOver.Engine.Ikcp

open CrossOver.Lib

theorem word32 (value : UInt32) : UInt32.ofNat (leValue (leBytes 4 value.toNat)) = value := by
  have bound := value.toNat_lt
  rw [leValue_leBytes (by omega), UInt32.ofNat_toNat]

theorem word16 (value : UInt16) : UInt16.ofNat (leValue (leBytes 2 value.toNat)) = value := by
  have bound := value.toNat_lt
  rw [leValue_leBytes (by omega), UInt16.ofNat_toNat]

theorem word8 (value : UInt8) : UInt8.ofNat (leValue [value]) = value := by
  simp [leValue]

theorem encodeHeader_length (header : Header) : (encodeHeader header).length = 24 := by
  simp [encodeHeader]

theorem decodeHeader_encodeHeader (header : Header) (rest : Bytes) :
    decodeHeader (encodeHeader header ++ rest) = header := by
  obtain ⟨conv, cmd, frg, wnd, ts, sn, una, len⟩ := header
  have fields : decodeHeader (encodeHeader ⟨conv, cmd, frg, wnd, ts, sn, una, len⟩ ++ rest) =
      { conv := UInt32.ofNat (leValue (leBytes 4 conv.toNat))
        cmd := UInt8.ofNat (leValue [cmd])
        frg := UInt8.ofNat (leValue [frg])
        wnd := UInt16.ofNat (leValue (leBytes 2 wnd.toNat))
        ts := UInt32.ofNat (leValue (leBytes 4 ts.toNat))
        sn := UInt32.ofNat (leValue (leBytes 4 sn.toNat))
        una := UInt32.ofNat (leValue (leBytes 4 una.toNat))
        len := UInt32.ofNat (leValue (leBytes 4 len.toNat)) } := rfl
  rw [fields]
  simp only [word32, word16, word8]

/-- A segment as it stands in a packet. -/
def wire (seg : Seg) : Bytes := encodeSeg seg ++ seg.data

def headerOf (seg : Seg) : Header where
  conv := seg.conv
  cmd := seg.cmd.toUInt8
  frg := seg.frg.toUInt8
  wnd := seg.wnd.toUInt16
  ts := seg.ts
  sn := seg.sn
  una := seg.una
  len := seg.len

/-- The loop of `ikcp_input` on a packet that starts with a segment. -/
theorem inputLoop_wire (turns : Nat) (kcp : Kcp) (seg : Seg) (rest : Bytes)
    (known : Kcp.knownCmd seg.cmd.toUInt8.toUInt32 = true) (fits : seg.data.length < 2 ^ 32) :
    Kcp.inputLoop (turns + 1) kcp (wire seg ++ rest) =
      Kcp.inputLoop turns (kcp.inputSegment (headerOf seg) seg.data) rest := by
  have header : decodeHeader (wire seg ++ rest) = headerOf seg := by
    rw [wire, List.append_assoc]
    exact decodeHeader_encodeHeader (headerOf seg) (seg.data ++ rest)
  have length : (encodeSeg seg).length = 24 := encodeHeader_length (headerOf seg)
  have behind : (wire seg ++ rest).drop 24 = seg.data ++ rest := by
    rw [wire, List.append_assoc, List.drop_left' length]
  have enough : ¬ (wire seg ++ rest).length < 24 := by
    rw [wire, List.length_append, List.length_append, length]
    omega
  have len : (headerOf seg).len.toNat = seg.data.length := by
    change (UInt32.ofNat seg.data.length).toNat = seg.data.length
    rw [UInt32.toNat_ofNat', Nat.mod_eq_of_lt fits]
  have complete : ¬ (seg.data ++ rest).length < seg.data.length := by
    rw [List.length_append]
    omega
  have cmd : (headerOf seg).cmd.toUInt32 = seg.cmd.toUInt8.toUInt32 := rfl
  simp only [Kcp.inputLoop, if_neg enough, header, behind, len, if_neg complete, cmd, known,
    Bool.not_true, Bool.false_eq_true, if_false, List.take_left, List.drop_left]

/-- The loop of `ikcp_input` on a whole packet. -/
theorem inputLoop_packet (segs : List Seg) (turns : Nat) (kcp : Kcp)
    (known : ∀ seg ∈ segs, Kcp.knownCmd seg.cmd.toUInt8.toUInt32 = true)
    (fits : ∀ seg ∈ segs, seg.data.length < 2 ^ 32) (enough : segs.length ≤ turns) :
    Kcp.inputLoop turns kcp (segs.flatMap wire) =
      (segs.foldl (fun kcp seg => kcp.inputSegment (headerOf seg) seg.data) kcp, 0) := by
  induction segs generalizing turns kcp with
  | nil =>
      cases turns with
      | zero => rfl
      | succ turns => rfl
  | cons seg rest inductionHypothesis =>
      obtain ⟨turns, rfl⟩ : ∃ left, turns = left + 1 := ⟨turns - 1, by simp at enough; omega⟩
      rw [List.flatMap_cons, inputLoop_wire turns kcp seg _ (known seg List.mem_cons_self)
        (fits seg List.mem_cons_self), inductionHypothesis]
      · rfl
      · exact fun other membership => known other (List.mem_cons_of_mem _ membership)
      · exact fun other membership => fits other (List.mem_cons_of_mem _ membership)
      · simpa using enough

theorem wire_length (seg : Seg) : 24 ≤ (wire seg).length := by
  have length : (encodeSeg seg).length = 24 := encodeHeader_length (headerOf seg)
  rw [wire, List.length_append, length]
  omega

theorem packet_length (segs : List Seg) : segs.length ≤ (segs.flatMap wire).length := by
  induction segs with
  | nil => simp
  | cons seg rest inductionHypothesis =>
      have front := wire_length seg
      rw [List.flatMap_cons, List.length_append, List.length_cons]
      omega

end CrossOver.Engine.Ikcp
