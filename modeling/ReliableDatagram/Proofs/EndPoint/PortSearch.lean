import ReliableDatagram.EndPoint.PortSearch

/-!
# The first usable port

A search goes up from the configured port until the answer is something else than that the port is in
use. `finds_first_usable` says which ports it tries, and what comes of it, for any operating system.
-/

namespace ReliableDatagram

namespace PortSearch

variable {bind : SocketAddr → BindAnswer} {addr : SocketAddr} {addrs : List SocketAddr}
  {s : PortSearch}

/-- The addresses that may be tried: as many as are allowed, on consecutive ports from the given one
on, as far as there are ports. -/
def candidates (addr : SocketAddr) (attempts : Nat) : List SocketAddr :=
  (List.range (min attempts (0x10000 - addr.port.toNat))).map fun k =>
    { addr with port := UInt16.ofNat (addr.port.toNat + k) }

/-- What comes of an address at which a search stops. -/
def outcomeAt (bind : SocketAddr → BindAnswer) (a : SocketAddr) : Outcome :=
  if bind a = .bound then .bound a else .failed a

/-- How a search among these addresses ends: with the first one that is not in use, or with none. -/
inductive Ends (bind : SocketAddr → BindAnswer) : List SocketAddr → PortSearch → Prop
  | decided {busy rest : List SocketAddr} {a : SocketAddr} (inUse : ∀ b ∈ busy, bind b = .inUse)
      (usable : bind a ≠ .inUse) :
      Ends bind (busy ++ a :: rest) ⟨busy ++ [a], outcomeAt bind a⟩
  | exhausted {busy : List SocketAddr} (inUse : ∀ b ∈ busy, bind b = .inUse) :
      Ends bind busy ⟨busy, .exhausted⟩

namespace Ends

theorem here (usable : bind addr ≠ .inUse) (rest : List SocketAddr) :
    Ends bind (addr :: rest) ⟨[addr], outcomeAt bind addr⟩ :=
  @decided _ [] _ _ nofun usable

theorem cons (busy : bind addr = .inUse) (ends : Ends bind addrs s) :
    Ends bind (addr :: addrs) ⟨addr :: s.tried, s.outcome⟩ := by
  cases ends with
  | @decided used _ _ inUse usable =>
    exact @decided _ (addr :: used) _ _ (List.forall_mem_cons.mpr ⟨busy, inUse⟩) usable
  | exhausted inUse => exact .exhausted (List.forall_mem_cons.mpr ⟨busy, inUse⟩)

/-- Nothing is tried out of turn. -/
theorem tried_prefix (ends : Ends bind addrs s) : s.tried <+: addrs := by
  cases ends with
  | @decided busy rest a => exact ⟨rest, by simp⟩
  | exhausted => exact List.prefix_refl _

end Ends

section Ports

theorem toNat_nextPort (inner : addr.port ≠ 0xffff) :
    addr.nextPort.port.toNat = addr.port.toNat + 1 := by
  have small : addr.port.toNat ≠ 0xffff := fun last => inner (UInt16.toNat_inj.mp last)
  have bound := addr.port.toNat_lt
  show (addr.port + 1).toNat = _
  rw [UInt16.toNat_add]
  show (addr.port.toNat + 1) % 65536 = _
  omega

/-- The candidates follow the recursion of the search. -/
theorem candidates_succ (addr : SocketAddr) (retries : Nat) :
    candidates addr (retries + 1) =
      addr :: if addr.port = 0xffff then [] else candidates addr.nextPort retries := by
  have bound := addr.port.toNat_lt
  have first : { addr with port := UInt16.ofNat (addr.port.toNat + 0) } = addr := by
    rw [Nat.add_zero, UInt16.ofNat_toNat]
  split
  · next last =>
    have one : min (retries + 1) (0x10000 - addr.port.toNat) = 1 := by
      rw [last]
      show min (retries + 1) 1 = 1
      omega
    rw [candidates, one]
    exact congrArg (· :: []) first
  · next inner =>
    have next := toNat_nextPort inner
    have more : min (retries + 1) (0x10000 - addr.port.toNat) =
        min retries (0x10000 - addr.nextPort.port.toNat) + 1 := by
      omega
    rw [candidates, candidates, more, List.range_succ_eq_map, List.map_cons, List.map_map, first]
    refine congrArg (addr :: ·) (List.map_congr_left fun k _ => ?_)
    show { addr with port := UInt16.ofNat (addr.port.toNat + (k + 1)) } =
      { addr with port := UInt16.ofNat (addr.nextPort.port.toNat + k) }
    rw [next, Nat.add_assoc, Nat.add_comm 1 k]

theorem candidates_ports (addr : SocketAddr) (attempts : Nat) :
    (candidates addr attempts).map (·.port.toNat) =
      List.range' addr.port.toNat (min attempts (0x10000 - addr.port.toNat)) := by
  rw [candidates, List.map_map, List.range'_eq_map_range]
  refine List.map_congr_left fun k mem => ?_
  have inside := List.mem_range.mp mem
  show (UInt16.ofNat (addr.port.toNat + k)).toNat = _
  rw [UInt16.toNat_ofNat']
  omega

end Ports

section Search

variable {policy : PortPolicy}

/-- Any answer but that the address is in use is final. -/
theorem search_of_usable (usable : bind addr ≠ .inUse) (policy : PortPolicy) (retries : Nat) :
    search bind policy retries addr = ⟨[addr], outcomeAt bind addr⟩ := by
  unfold search outcomeAt
  cases answer : bind addr with
  | inUse => exact absurd answer usable
  | _ => rfl

theorem search_of_final (final : policy = .fixed ∨ addr.port = 0) (retries : Nat) :
    search bind policy retries addr = ⟨[addr], outcomeAt bind addr⟩ := by
  by_cases busy : bind addr = .inUse
  · unfold search
    simp [outcomeAt, busy, final]
  · exact search_of_usable busy policy retries

theorem search_zero_of_busy (busy : bind addr = .inUse) (inner : addr.port ≠ 0) :
    search bind .increment 0 addr = ⟨[addr], .exhausted⟩ := by
  simp [search, busy, inner]

theorem search_succ_of_busy (busy : bind addr = .inUse) (inner : addr.port ≠ 0) (retries : Nat) :
    search bind .increment (retries + 1) addr =
      if addr.port = 0xffff then ⟨[addr], .exhausted⟩
      else
        let rest := search bind .increment retries addr.nextPort
        ⟨addr :: rest.tried, rest.outcome⟩ := by
  simp [search, busy, inner]

theorem nextPort_ne_zero (last : addr.port ≠ 0xffff) : addr.nextPort.port ≠ 0 := by
  intro zero
  have next := toNat_nextPort last
  rw [zero] at next
  cases next

theorem ends_search (bind : SocketAddr → BindAnswer) (retries : Nat) (addr : SocketAddr)
    (inner : addr.port ≠ 0) :
    Ends bind (candidates addr (retries + 1)) (search bind .increment retries addr) := by
  induction retries generalizing addr with
  | zero =>
    have alone : candidates addr 1 = [addr] := by
      rw [candidates_succ, candidates, Nat.zero_min]
      exact congrArg _ (ite_self [])
    rw [alone]
    by_cases busy : bind addr = .inUse
    · rw [search_zero_of_busy busy inner]
      exact .exhausted (by simpa using busy)
    · rw [search_of_usable busy]
      exact .here busy []
  | succ retries ih =>
    rw [candidates_succ]
    by_cases busy : bind addr = .inUse
    · rw [search_succ_of_busy busy inner]
      by_cases last : addr.port = 0xffff
      · rw [if_pos last, if_pos last]
        exact .exhausted (by simpa using busy)
      · rw [if_neg last, if_neg last]
        exact (ih addr.nextPort (nextPort_ne_zero last)).cons busy
    · rw [search_of_usable busy]
      exact .here busy _

end Search

/-- The answer of the operating system for an address that is not in use is passed on. -/
def verdict (bind : SocketAddr → BindAnswer) (a : SocketAddr) : Except BindError SocketAddr :=
  if bind a = .bound then .ok a else .error (.failed a)

/-- A search for a configuration stops at the first usable port. -/
structure FindsFirst (bind : SocketAddr → BindAnswer) (config : Config) (s : PortSearch) : Prop where
  /-- All addresses before the first one that is not in use are tried, in order, and then this one. If
  there is none, each is tried once. -/
  upward : config.portPolicy = .increment → config.bindAddr.port ≠ 0 →
    (∃ busy a rest, candidates config.bindAddr config.maxPortAttempts = busy ++ a :: rest ∧
      (∀ b ∈ busy, bind b = .inUse) ∧ bind a ≠ .inUse ∧ s.tried = busy ++ [a] ∧
        s.result config.bindAddr = verdict bind a) ∨
    (∀ a ∈ candidates config.bindAddr config.maxPortAttempts, bind a = .inUse) ∧
      s.tried = candidates config.bindAddr config.maxPortAttempts ∧
        s.result config.bindAddr = .error (.noFreePort s.tried.length config.bindAddr)
  alone : config.portPolicy = .fixed ∨ config.bindAddr.port = 0 →
    s.tried = [config.bindAddr] ∧ s.result config.bindAddr = verdict bind config.bindAddr
  /-- Counting up, a port never wraps. -/
  ports : s.tried.map (·.port.toNat) = List.range' config.bindAddr.port.toNat s.tried.length
  last : config.bindAddr.port.toNat + s.tried.length ≤ 0x10000
  attempts : s.tried.length ≤ config.maxPortAttempts

theorem result_outcomeAt (tried : List SocketAddr) (a start : SocketAddr) :
    PortSearch.result ⟨tried, outcomeAt bind a⟩ start = verdict bind a := by
  rw [PortSearch.result, outcomeAt, verdict]
  by_cases bound : bind a = .bound
  · simp only [if_pos bound]
  · simp only [if_neg bound]

/-- What is tried in turn has consecutive ports. -/
theorem ports_of_prefix {tried : List SocketAddr} {attempts : Nat}
    (front : tried <+: candidates addr attempts) :
    tried.map (·.port.toNat) = List.range' addr.port.toNat tried.length ∧
      tried.length ≤ min attempts (0x10000 - addr.port.toNat) := by
  obtain ⟨rest, all⟩ := front.map (·.port.toNat)
  rw [candidates_ports] at all
  obtain ⟨count, within, ports, _⟩ := List.range'_eq_append_iff.mp all.symm
  obtain rfl : tried.length = count := by simpa using congrArg List.length ports
  exact ⟨ports, within⟩

theorem FindsFirst.of_ends {config : Config} (policy : config.portPolicy = .increment)
    (inner : config.bindAddr.port ≠ 0)
    (ends : Ends bind (candidates config.bindAddr config.maxPortAttempts) s) :
    FindsFirst bind config s := by
  obtain ⟨ports, within⟩ := ports_of_prefix ends.tried_prefix
  have bound := config.bindAddr.port.toNat_lt
  refine ⟨fun _ _ => ?_, fun final => ?_, ports, by omega, by omega⟩
  · generalize candidates config.bindAddr config.maxPortAttempts = addrs at ends
    cases ends with
    | @decided busy rest a inUse usable =>
      exact .inl ⟨busy, a, rest, rfl, inUse, usable, rfl, result_outcomeAt _ a _⟩
    | exhausted inUse => exact .inr ⟨inUse, rfl, rfl⟩
  · rcases final with fixed | zero
    · cases policy.symm.trans fixed
    · exact absurd zero inner

theorem FindsFirst.of_final {config : Config}
    (final : config.portPolicy = .fixed ∨ config.bindAddr.port = 0)
    (allowed : 0 < config.maxPortAttempts) :
    FindsFirst bind config ⟨[config.bindAddr], outcomeAt bind config.bindAddr⟩ := by
  have bound := config.bindAddr.port.toNat_lt
  refine ⟨fun policy inner => ?_, fun _ => ⟨rfl, result_outcomeAt _ _ _⟩, rfl, bound, allowed⟩
  rcases final with fixed | zero
  · cases policy.symm.trans fixed
  · exact absurd zero inner

/-- Whatever the operating system answers, the search tries the configured port, and those above it only
if all before are in use, up to the allowed number and the end of the range. -/
theorem finds_first_usable (bind : SocketAddr → BindAnswer) (config : Config)
    (allowed : 0 < config.maxPortAttempts) : FindsFirst bind config (ofConfig bind config) := by
  by_cases final : config.portPolicy = .fixed ∨ config.bindAddr.port = 0
  · rw [ofConfig, search_of_final final]
    exact .of_final final allowed
  · obtain ⟨moving, inner⟩ := not_or.mp final
    have policy : config.portPolicy = .increment := by
      cases chosen : config.portPolicy with
      | increment => rfl
      | fixed => exact absurd chosen moving
    have ends := ends_search bind (config.maxPortAttempts - 1) config.bindAddr inner
    rw [Nat.sub_add_cancel allowed, ← policy] at ends
    exact .of_ends policy inner ends

/-- The configured port is the third from the end. -/
def nearTop : Config := { bindAddr := ⟨.v4 1, 65533⟩ }

def lastFree (a : SocketAddr) : BindAnswer := if a.port = 0xffff then .bound else .inUse

/-- Of a hundred attempts that are allowed, there are ports for three. -/
theorem finds_first_usable_of_nearTop : 0 < nearTop.maxPortAttempts ∧
    FindsFirst lastFree nearTop (ofConfig lastFree nearTop) ∧
    (ofConfig lastFree nearTop).tried.map (·.port) = [65533, 65534, 65535] ∧
    (ofConfig lastFree nearTop).outcome = .bound ⟨.v4 1, 65535⟩ := by
  have allowed : 0 < nearTop.maxPortAttempts := by decide
  exact ⟨allowed, finds_first_usable lastFree nearTop allowed, by decide, by decide⟩

/-- They may all be in use. -/
example : (ofConfig (fun _ => .inUse) nearTop).tried.map (·.port) = [65533, 65534, 65535] ∧
    (ofConfig (fun _ => .inUse) nearTop).outcome = .exhausted := by
  decide

end PortSearch

end ReliableDatagram
