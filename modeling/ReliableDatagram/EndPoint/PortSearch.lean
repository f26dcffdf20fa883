import ReliableDatagram.Config

/-!
# Port search

A configured port that is in use is followed by the ports above it, if the policy allows that. The
search ends at the first port that is not in use, at the end of the port range, or when the allowed
attempts are spent.
-/

namespace ReliableDatagram

namespace PortSearch

/-- What the operating system says to an attempt to bind an address. -/
inductive BindAnswer
  | bound
  | inUse
  | refused
deriving DecidableEq

inductive Outcome
  | bound (addr : SocketAddr)
  /-- The answer for this address is final. -/
  | failed (addr : SocketAddr)
  /-- All addresses that may be tried are in use. -/
  | exhausted
deriving DecidableEq

end PortSearch

/-- The addresses that were tried, in order, and how it ended. -/
structure PortSearch where
  tried : List SocketAddr
  outcome : PortSearch.Outcome
deriving DecidableEq

def SocketAddr.nextPort (a : SocketAddr) : SocketAddr := { a with port := a.port + 1 }

namespace PortSearch

/-- Port 0 leaves the choice to the operating system, so there is no next port to it. -/
def search (bind : SocketAddr → BindAnswer) (policy : PortPolicy) :
    Nat → SocketAddr → PortSearch
  | retries, addr =>
    match bind addr with
    | .bound => ⟨[addr], .bound addr⟩
    | .refused => ⟨[addr], .failed addr⟩
    | .inUse =>
      if policy = .fixed ∨ addr.port = 0 then ⟨[addr], .failed addr⟩
      else
        match retries with
        | 0 => ⟨[addr], .exhausted⟩
        | retries + 1 =>
          if addr.port = 0xffff then ⟨[addr], .exhausted⟩
          else
            let rest := search bind policy retries addr.nextPort
            ⟨addr :: rest.tried, rest.outcome⟩

def ofConfig (bind : SocketAddr → BindAnswer) (c : Config) : PortSearch :=
  search bind c.portPolicy (c.maxPortAttempts - 1) c.bindAddr

end PortSearch

inductive BindError
  | invalid (e : ConfigError)
  | failed (addr : SocketAddr)
  | noFreePort (attempts : Nat) (start : SocketAddr)

def BindError.message : BindError → String
  | invalid e => e.message
  | failed addr => s!"binding UDP socket to {addr.toText}"
  | noFreePort attempts start =>
    s!"no free port in {attempts} attempts starting at {start.toText}"

namespace PortSearch

def result (s : PortSearch) (start : SocketAddr) : Except BindError SocketAddr :=
  match s.outcome with
  | .bound addr => .ok addr
  | .failed addr => .error (.failed addr)
  | .exhausted => .error (.noFreePort s.tried.length start)

end PortSearch

end ReliableDatagram
