import SoftwareDynamics.Network.Endpoint

/-! One end of a connection to which a given stream of bytes arrives, cut by the `read`s in any
way.  Messages that are sent one after the other are received one after the other. -/

namespace SoftwareDynamics.Network

open ProofKit Prog

section Model

/-- Each `read` delivers some more bytes of a stream, and none at its end. -/
def Arrives (stream got chunk : Bytes) : Prop :=
  if got = stream then chunk = [] else chunk ≠ [] ∧ got ++ chunk <+: stream

/-- One end of a connection to which a stream arrives, where no other thread uses the store. -/
def streamEnv (connection : Connection) (logFd : Fd) (stream : Bytes) :
    Env SysOp SysOp.Result (Endpoint Keystore) :=
  endpointEnv connection.sockFd logFd .alone (Arrives stream)

theorem endpointEnv_total (sock logFd : Fd) (arrives : Bytes → Bytes → Prop) :
    (endpointEnv sock logFd .alone arrives).Total := by
  intro e op hallows
  cases op with
  | read fd count =>
    obtain ⟨rfl, -, chunk, harrives, hlen⟩ := hallows
    exact ⟨some ⟨chunk, hlen⟩, _, rfl, harrives, rfl⟩
  | write fd buf => exact ⟨_, _, rfl, rfl⟩
  | gettimeofday => exact ⟨some ⟨0, 0⟩, _, rfl⟩
  | malloc n => exact ⟨true, e, rfl, rfl⟩
  | indeterminate n => exact ⟨⟨List.replicate n 0, List.length_replicate⟩, e, rfl⟩
  | emplace key value => exact ⟨(), _, _, rfl, rfl⟩
  | find key => exact ⟨_, _, _, ⟨rfl, rfl⟩, rfl⟩
  | _ => exact hallows.elim

/-- What has been seen by the time that, from `e` on, `t` has been seen. -/
def Endpoint.after {κ : Type} (e t : Endpoint κ) : Endpoint κ :=
  ⟨e.got ++ t.got, e.sent ++ t.sent, t.clock ++ e.clock, e.ended || t.ended, t.store⟩

@[simp] theorem Endpoint.after_fresh {κ : Type} (e : Endpoint κ) :
    e.after (.fresh e.store) = e := by
  simp [after, fresh]

end Model

section Simulation

variable {stream : Bytes} {connection : Connection} {logFd : Fd} {I : Endpoint Keystore → Prop}
  {e : Endpoint Keystore}

theorem Arrives.append_prefix {got chunk : Bytes} (h : Arrives stream got chunk)
    (hgot : got <+: stream) : got ++ chunk <+: stream := by
  unfold Arrives at h
  split_ifs at h
  · rwa [h, List.append_nil]
  · exact h.2

theorem Arrives.eq_of_nil {got : Bytes} (h : Arrives stream got []) : got = stream := by
  unfold Arrives at h
  split_ifs at h with heq
  · exact heq
  · exact absurd rfl h.1

theorem exists_arrives {got : Bytes} {count : Nat} (hgot : got <+: stream) (hcount : 0 < count) :
    ∃ chunk, Arrives stream got chunk ∧ chunk.length ≤ count := by
  obtain ⟨rest, rfl⟩ := hgot
  cases rest with
  | nil => exact ⟨[], by simp [Arrives], Nat.zero_le _⟩
  | cons b rest =>
    refine ⟨[b], ?_, hcount⟩
    rw [Arrives, if_neg (by simp)]
    exact ⟨List.cons_ne_nil b [], rest, by simp⟩

/-- `e'` has been reached from `e` on, seeing `t`, in a stream that may have ended. -/
structure Along (stream : Bytes) {κ : Type} (e t e' : Endpoint κ) : Prop where
  eq : e' = e.after t
  got : e.got ++ t.got <+: stream
  ended : t.ended → e.got ++ t.got = stream

theorem Along.start (h : e.got <+: stream) : Along stream e (.fresh e.store) e where
  eq := e.after_fresh.symm
  got := by simpa [Endpoint.fresh] using h
  ended := nofun

/-- An end of a connection to which a stream arrives is one to which anything may arrive. -/
theorem along_simulates : (watched connection logFd .alone I).Simulates
    (streamEnv connection logFd stream) (Along stream e) := by
  rintro t e' op ⟨rfl, hgot, hended⟩ ⟨-, hallows⟩
  cases op with
  | read fd count =>
    obtain ⟨rfl, hcount, -⟩ := hallows
    refine ⟨⟨rfl, hcount, exists_arrives hgot hcount⟩, fun r e'' hr => ?_⟩
    cases r with
    | none => exact hr.elim
    | some chunk =>
      obtain ⟨chunk, hlen⟩ := chunk
      obtain ⟨-, harrives, rfl⟩ := hr
      refine ⟨t.receive chunk, ⟨rfl, trivial, rfl⟩, ?_, ?_, fun h => ?_⟩
      · simp [Endpoint.receive, Endpoint.after, Bool.or_assoc]
      · simpa [Endpoint.receive, Endpoint.after] using harrives.append_prefix hgot
      · simp only [Endpoint.receive, Bool.or_eq_true, List.isEmpty_iff] at h ⊢
        rcases h with h | rfl
        · have hstream := hended h
          simp only [Arrives, Endpoint.after, hstream, if_true] at harrives
          rw [harrives, List.append_nil, hstream]
        · rw [List.append_nil]
          exact harrives.eq_of_nil
  | write fd buf =>
    refine ⟨hallows, fun r e'' hr => ?_⟩
    obtain ⟨rfl, rfl⟩ := hr
    refine ⟨_, ⟨rfl, rfl⟩, ?_⟩
    split_ifs
    · exact ⟨by simp [Endpoint.send, Endpoint.after], hgot, hended⟩
    · exact ⟨rfl, hgot, hended⟩
  | gettimeofday =>
    refine ⟨trivial, fun r e'' hr => ?_⟩
    cases r with
    | none => exact hr.elim
    | some now =>
      obtain rfl : e'' = (e.after t).look now.usec := hr
      exact ⟨_, rfl, rfl, hgot, hended⟩
  | malloc n =>
    refine ⟨trivial, fun r e'' hr => ?_⟩
    obtain ⟨rfl, rfl⟩ := hr
    exact ⟨t, ⟨rfl, rfl⟩, rfl, hgot, hended⟩
  | indeterminate n =>
    refine ⟨trivial, fun r e'' hr => ?_⟩
    obtain rfl : e'' = e.after t := hr
    exact ⟨t, rfl, rfl, hgot, hended⟩
  | emplace key value =>
    refine ⟨trivial, fun r e'' hr => ?_⟩
    obtain ⟨store, hstore, rfl⟩ := hr
    exact ⟨_, ⟨store, hstore, rfl⟩, rfl, hgot, hended⟩
  | find key =>
    refine ⟨trivial, fun r e'' hr => ?_⟩
    obtain ⟨store, hstore, rfl⟩ := hr
    exact ⟨_, ⟨store, hstore, rfl⟩, rfl, hgot, hended⟩
  | _ => exact hallows.elim

/-- What a program does where anything may arrive, it does where a stream arrives. -/
theorem wp_stream {α : Type} {p : Sys α} {Q : α → Endpoint Keystore → Prop}
    (hgot : e.got <+: stream)
    (h : wp (watched connection logFd .alone I) p Q (.fresh e.store)) :
    wp (streamEnv connection logFd stream) p (fun a e' => ∃ t, Along stream e t e' ∧ Q a t) e :=
  along_simulates.wp h (.start hgot)

end Simulation

end SoftwareDynamics.Network
