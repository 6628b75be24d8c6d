import Minimodal.Lib.Pieces
import Minimodal.Worker.Executor

namespace Minimodal

namespace Worker

open Lib (Pieces)

/-- The loop of `_recv_exact` and `_read_exact`, with what has been read so far. -/
def recvExactFrom (n : Nat) (buf : Bytes) (sock : Pieces UInt8) : Except Stop (Bytes × Pieces UInt8) :=
  if buf.length < n then
    let chunk := sock.recv (n - buf.length)
    if chunk.1 = [] then .error (eofError buf.length n)
    else recvExactFrom n (buf ++ chunk.1) chunk.2
  else .ok (buf, sock)
  termination_by n - buf.length
  decreasing_by
    rename_i hlt hnil
    have hpos : 0 < (sock.recv (n - buf.length)).1.length := List.length_pos_iff.mpr hnil
    simp only [List.length_append]
    omega

def recvExact (sock : Pieces UInt8) (n : Nat) : Except Stop (Bytes × Pieces UInt8) :=
  recvExactFrom n [] sock

def recvMessage (sock : Pieces UInt8) : Except Stop (Bytes × Pieces UInt8) := do
  let (head, sock) ← recvExact sock 4
  recvExact sock (unpack head)

/-- `_read_request`, on a stdin that arrives in pieces. -/
def recvRequest (stdin : Pieces UInt8) : Except Stop (Bytes × Bytes) := do
  let (fnBytes, stdin) ← recvMessage stdin
  let (argsBytes, _) ← recvMessage stdin
  return (fnBytes, argsBytes)

def sendMessage (wire payload : Bytes) : Except Stop Bytes := do
  let head ← pack payload.length
  return wire ++ head ++ payload

def recvMessages (sock : Pieces UInt8) : Nat → List Bytes × Except Stop (Pieces UInt8)
  | 0 => ([], .ok sock)
  | count + 1 =>
    match recvMessage sock with
    | .error e => ([], .error e)
    | .ok (payload, sock) =>
      let (payloads, result) := recvMessages sock count
      (payload :: payloads, result)

def Reads {α : Type} (r : Except Stop (α × Pieces UInt8)) (whole : Except Stop (α × Bytes)) : Prop :=
  r.map (fun (a, sock) => (a, sock.flatten)) = whole

variable {sock : Pieces UInt8} {n : Nat} {buf payload rest : Bytes}

theorem Reads.ok {α : Type} {r : Except Stop (α × Pieces UInt8)} {a : α}
    (h : Reads r (.ok (a, rest))) : ∃ sock, r = .ok (a, sock) ∧ sock.flatten = rest := by
  cases r with
  | error e => cases h
  | ok x =>
    obtain ⟨b, sock⟩ := x
    simp only [Reads, Except.map, Except.ok.injEq, Prod.mk.injEq] at h
    exact ⟨sock, by rw [h.1], h.2⟩

theorem Reads.error {α : Type} {r : Except Stop (α × Pieces UInt8)} {e : Stop}
    (h : Reads r (.error e)) : r = .error e := by
  cases r with
  | error e' =>
    simp only [Reads, Except.map, Except.error.injEq] at h
    rw [h]
  | ok x => cases h

theorem Reads.bind {α β : Type} {r : Except Stop (α × Pieces UInt8)} {whole : Except Stop (α × Bytes)}
    {f : α × Pieces UInt8 → Except Stop (β × Pieces UInt8)} {g : α × Bytes → Except Stop (β × Bytes)}
    (h : Reads r whole) (hf : ∀ a sock, Reads (f (a, sock)) (g (a, sock.flatten))) :
    Reads (r >>= f) (whole >>= g) := by
  subst h
  cases r with
  | error e => rfl
  | ok x => exact hf x.1 x.2

theorem recvExactFrom_reads (hbuf : buf.length ≤ n) :
    Reads (recvExactFrom n buf sock) (readExact n (buf ++ sock.flatten)) := by
  fun_induction recvExactFrom n buf sock with
  | case1 buf sock hlt chunk hnil =>
    have hend : sock.flatten = [] := Pieces.recv_eq_nil (by omega) hnil
    rw [hend, List.append_nil, readExact, if_pos hlt]
    rfl
  | case2 buf sock hlt chunk hne ih =>
    have hle : chunk.1.length ≤ n - buf.length := sock.length_recv_le _
    have hflat : chunk.1 ++ chunk.2.flatten = sock.flatten := sock.recv_append _
    rw [← hflat, ← List.append_assoc]
    refine ih ?_
    rw [List.length_append]
    omega
  | case3 buf sock hge =>
    have hlen : buf.length = n := by omega
    rw [← hlen, readExact_append]
    rfl

theorem recvExact_reads (sock : Pieces UInt8) (n : Nat) :
    Reads (recvExact sock n) (readExact n sock.flatten) :=
  recvExactFrom_reads (Nat.zero_le n)

theorem recvMessage_reads (sock : Pieces UInt8) : Reads (recvMessage sock) (readFrame sock.flatten) :=
  (recvExact_reads sock 4).bind fun head sock => recvExact_reads sock (unpack head)

theorem recvRequest_eq (stdin : Pieces UInt8) : recvRequest stdin = readRequest stdin.flatten := by
  have hfn := recvMessage_reads stdin
  cases hr : readFrame stdin.flatten with
  | error e =>
    rw [hr] at hfn
    simp only [recvRequest, readRequest, hfn.error, hr]
    rfl
  | ok x =>
    obtain ⟨fnBytes, rest⟩ := x
    rw [hr] at hfn
    obtain ⟨stdin', hfn', rfl⟩ := hfn.ok
    have hargs := recvMessage_reads stdin'
    cases hr' : readFrame stdin'.flatten with
    | error e =>
      rw [hr'] at hargs
      have hargs' := hargs.error
      simp only [recvRequest, readRequest, hfn', hr, bind, Except.bind, hargs', hr']
    | ok x =>
      obtain ⟨argsBytes, rest⟩ := x
      rw [hr'] at hargs
      obtain ⟨stdin'', hargs', rfl⟩ := hargs.ok
      simp only [recvRequest, readRequest, hfn', hr, bind, Except.bind, hargs', hr']

inductive Wire : List Bytes → Bytes → Prop
  | nil : Wire [] []
  | cons {head payload rest payloads} : head.length = 4 → unpack head = payload.length →
      Wire payloads rest → Wire (payload :: payloads) (head ++ payload ++ rest)

theorem wire_of_send {payloads : List Bytes} (h : ∀ payload ∈ payloads, Fits payload) (sent : Bytes) :
    ∃ wire, payloads.foldlM sendMessage sent = .ok (sent ++ wire) ∧ Wire payloads wire := by
  induction payloads generalizing sent with
  | nil => exact ⟨[], by rw [List.append_nil]; rfl, .nil⟩
  | cons payload payloads ih =>
    obtain ⟨hfits, hrest⟩ := List.forall_mem_cons.mp h
    obtain ⟨head, hpack, hlen, hn⟩ := pack_ok hfits
    obtain ⟨wire, hsend, hwire⟩ := ih hrest (sent ++ head ++ payload)
    refine ⟨head ++ payload ++ wire, ?_, .cons hlen hn hwire⟩
    have hfirst : sendMessage sent payload = .ok (sent ++ head ++ payload) := by
      simp only [sendMessage, hpack]
      rfl
    rw [List.foldlM_cons, hfirst]
    refine Eq.trans hsend ?_
    simp only [List.append_assoc]

theorem recvMessages_of_wire {payloads : List Bytes} {wire : Bytes} (h : Wire payloads wire)
    (sock : Pieces UInt8) (hsock : sock.flatten = wire) :
    ∃ rest, recvMessages sock payloads.length = (payloads, .ok rest) ∧ rest.flatten = [] := by
  induction h generalizing sock with
  | nil => exact ⟨sock, rfl, hsock⟩
  | @cons head payload rest payloads hlen hn _ ih =>
    have hread := recvMessage_reads sock
    rw [hsock, readFrame_append hlen hn rest] at hread
    obtain ⟨sock', hrecv, hrest⟩ := hread.ok
    obtain ⟨last, hlast, hnil⟩ := ih sock' hrest
    exact ⟨last, by simp only [List.length_cons, recvMessages, hrecv, hlast], hnil⟩

theorem truncated_cases {stream first second : Bytes} (hpre : stream <+: first ++ second)
    (hne : stream ≠ first ++ second) :
    (stream <+: first ∧ stream ≠ first) ∨
      ∃ rest, stream = first ++ rest ∧ rest <+: second ∧ rest ≠ second := by
  obtain ⟨tail, htail⟩ := hpre
  obtain ⟨rest, hfirst, -⟩ | ⟨rest, hstream, hsecond⟩ := List.append_eq_append_iff.mp htail
  · by_cases heq : stream = first
    · refine .inr ⟨[], by rw [heq, List.append_nil], List.nil_prefix, ?_⟩
      rintro rfl
      exact hne (by rw [heq, List.append_nil])
    · exact .inl ⟨⟨rest, hfirst.symm⟩, heq⟩
  · refine .inr ⟨rest, hstream, ⟨tail, hsecond.symm⟩, ?_⟩
    rintro rfl
    exact hne hstream

theorem length_lt_of_truncated {stream whole : Bytes} (hpre : stream <+: whole)
    (hne : stream ≠ whole) : stream.length < whole.length := by
  rcases Nat.lt_or_ge stream.length whole.length with hlt | hge
  · exact hlt
  · exact absurd (hpre.eq_of_length_le hge) hne

theorem readFrame_truncated {head stream : Bytes} (hlen : head.length = 4)
    (hn : unpack head = payload.length) (hpre : stream <+: head ++ payload)
    (hne : stream ≠ head ++ payload) :
    ∃ got wanted, got < wanted ∧ readFrame stream = .error (eofError got wanted) := by
  obtain ⟨hhead, hne'⟩ | ⟨rest, rfl, hrest, hne'⟩ := truncated_cases hpre hne
  · have hlt := length_lt_of_truncated hhead hne'
    rw [hlen] at hlt
    refine ⟨stream.length, 4, hlt, ?_⟩
    simp only [readFrame, readExact, if_pos hlt]
    rfl
  · have hlt := length_lt_of_truncated hrest hne'
    refine ⟨rest.length, payload.length, hlt, ?_⟩
    have hhead := readExact_append head rest
    rw [hlen] at hhead
    have hpayload : readExact (unpack head) rest = .error (eofError rest.length payload.length) := by
      rw [hn]
      exact if_pos hlt
    simp only [readFrame, hhead]
    exact hpayload

theorem recvMessages_truncated {payloads : List Bytes} {wire : Bytes} (h : Wire payloads wire)
    (sock : Pieces UInt8) (hpre : sock.flatten <+: wire) (hne : sock.flatten ≠ wire) :
    ∃ k got wanted, k < payloads.length ∧ got < wanted ∧ ∀ count, k < count →
      recvMessages sock count = (payloads.take k, .error (eofError got wanted)) := by
  induction h generalizing sock with
  | nil => exact absurd (List.prefix_nil.mp hpre) hne
  | @cons head payload rest payloads hlen hn _ ih =>
    have hread := recvMessage_reads sock
    obtain ⟨hfirst, hne'⟩ | ⟨tail, htail, hrest, hne'⟩ := truncated_cases hpre hne
    · obtain ⟨got, wanted, hlt, herror⟩ := readFrame_truncated hlen hn hfirst hne'
      rw [herror] at hread
      refine ⟨0, got, wanted, by simp, hlt, fun count hcount => ?_⟩
      obtain ⟨count, rfl⟩ := Nat.exists_eq_add_one_of_ne_zero (Nat.ne_of_gt hcount)
      simp only [recvMessages, hread.error, List.take_zero]
    · rw [htail, readFrame_append hlen hn tail] at hread
      obtain ⟨sock', hrecv, rfl⟩ := hread.ok
      obtain ⟨k, got, wanted, hk, hlt, hcalls⟩ := ih sock' hrest hne'
      refine ⟨k + 1, got, wanted, by simpa using hk, hlt, fun count hcount => ?_⟩
      obtain ⟨count, rfl⟩ := Nat.exists_eq_add_one_of_ne_zero (Nat.ne_of_gt (Nat.zero_lt_of_lt hcount))
      simp only [recvMessages, hrecv, hcalls count (by omega), List.take_succ_cons]

theorem readRequest_truncated {fnBytes argsBytes fnFrame argsFrame stream : Bytes}
    (hfn : frame fnBytes = .ok fnFrame) (hargs : frame argsBytes = .ok argsFrame)
    (hfnFits : Fits fnBytes) (hargsFits : Fits argsBytes)
    (hpre : stream <+: fnFrame ++ argsFrame) (hne : stream ≠ fnFrame ++ argsFrame) :
    ∃ got wanted, got < wanted ∧ readRequest stream = .error (eofError got wanted) := by
  obtain ⟨head, hframe, hlen, hn⟩ := frame_ok hfnFits
  obtain ⟨head', hframe', hlen', hn'⟩ := frame_ok hargsFits
  rw [hfn, Except.ok.injEq] at hframe
  rw [hargs, Except.ok.injEq] at hframe'
  subst hframe hframe'
  obtain ⟨hfirst, hne'⟩ | ⟨tail, rfl, hrest, hne'⟩ := truncated_cases hpre hne
  · obtain ⟨got, wanted, hlt, herror⟩ := readFrame_truncated hlen hn hfirst hne'
    refine ⟨got, wanted, hlt, ?_⟩
    simp only [readRequest, herror]
    rfl
  · obtain ⟨got, wanted, hlt, herror⟩ := readFrame_truncated hlen' hn' hrest hne'
    refine ⟨got, wanted, hlt, ?_⟩
    simp only [readRequest, readFrame_append hlen hn tail, bind, Except.bind, herror]

/-- However the transport cuts the stream, the messages come out as they were sent, and so does the
request to a subprocess. A stream that ends early gives the messages that are complete and then
`EOFError`. -/
theorem framing_round_trips (payloads : List Bytes) (fnBytes argsBytes : Bytes)
    (hpayloads : ∀ payload ∈ payloads, Fits payload) (hfn : Fits fnBytes) (hargs : Fits argsBytes) :
    (∃ wire, payloads.foldlM sendMessage [] = .ok wire ∧
        (∀ sock : Pieces UInt8, sock.flatten = wire →
          ∃ rest, recvMessages sock payloads.length = (payloads, .ok rest) ∧ rest.flatten = []) ∧
        ∀ sock : Pieces UInt8, sock.flatten <+: wire → sock.flatten ≠ wire →
          ∃ k got wanted, k < payloads.length ∧ got < wanted ∧ ∀ count, k < count →
            recvMessages sock count = (payloads.take k, .error (eofError got wanted))) ∧
      ∃ fnFrame argsFrame, frame fnBytes = .ok fnFrame ∧ frame argsBytes = .ok argsFrame ∧
        (∀ stdin : Pieces UInt8, stdin.flatten = fnFrame ++ argsFrame →
          recvRequest stdin = .ok (fnBytes, argsBytes)) ∧
        ∀ stdin : Pieces UInt8, stdin.flatten <+: fnFrame ++ argsFrame →
          stdin.flatten ≠ fnFrame ++ argsFrame →
          ∃ got wanted, got < wanted ∧ recvRequest stdin = .error (eofError got wanted) := by
  refine ⟨?_, ?_⟩
  · obtain ⟨wire, hsend, hwire⟩ := wire_of_send hpayloads []
    exact ⟨wire, hsend, recvMessages_of_wire hwire, recvMessages_truncated hwire⟩
  · obtain ⟨fnFrame, argsFrame, hframe, hframe', hread⟩ := readRequest_append hfn hargs
    refine ⟨fnFrame, argsFrame, hframe, hframe', ?_, ?_⟩
    · intro stdin hstdin
      rw [recvRequest_eq, hstdin, hread]
    · intro stdin hpre hne
      rw [recvRequest_eq]
      exact readRequest_truncated hframe hframe' hfn hargs hpre hne

def samplePieces : Pieces UInt8 where
  list := [[0, 0], [0, 1, 7, 0], [0, 0, 0]]
  ne_nil := by decide

theorem framing_round_trips_sample :
    ∃ rest, recvMessages samplePieces 2 = ([[7], []], .ok rest) ∧ rest.flatten = [] := by
  have hfits : ∀ payload ∈ ([[7], []] : List Bytes), Fits payload := by
    simp [Fits]
  obtain ⟨⟨wire, hsend, hread, -⟩, -⟩ :=
    framing_round_trips [[7], []] [] [] hfits (by simp [Fits]) (by simp [Fits])
  have hwire : ([[7], []] : List Bytes).foldlM sendMessage [] = .ok [0, 0, 0, 1, 7, 0, 0, 0, 0] := rfl
  rw [hwire, Except.ok.injEq] at hsend
  exact hread samplePieces hsend

end Worker

end Minimodal
