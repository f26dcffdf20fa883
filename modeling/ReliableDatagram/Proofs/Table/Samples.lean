import ReliableDatagram.Proofs.Channel.Samples
import ReliableDatagram.Proofs.Table.Concern

/-!
# Samples in the steps of a table

A step gives the channel with a key at most one sample of the round trip time, from the packet that
the step brings it. Nothing else that happens to a channel changes its estimator.
-/

namespace ReliableDatagram.Table

open Channel

variable {t : Table} {key : Key} {now : Nat} {op : Op} {ctx : Context} {generation : Nat}
variable {c c' : Channel} {c? : Option Channel} {q : Concern} {x : Logged Effect (Option Channel)}

/-- The packet that gives the channel with a key a sample in a step, and the sample. -/
def sample? (t : Table) (now : Nat) (key : Key) (op : Op) : Option (Packet × Nat) :=
  match t.concern? key op with
  | some (.packet p) => (t.find? key).bind fun c => (c.sample? (t.context now) p).map (p, ·)
  | _ => none

theorem unanswering_of_asks {cop : Channel.Op} (asks : q.Asks cop) (other : ∀ p, q ≠ .packet p) :
    cop.Unanswering := by
  cases asks with
  | packet => exact absurd rfl (other _)
  | _ => nofun

theorem Served.rtt (served : Served ctx key generation c? q x) (other : ∀ p, q ≠ .packet p)
    (after : x.value = some c') : c'.rtt = c?.elim {} Channel.rtt := by
  cases served with
  | idle | refuse =>
    have found : c? = some c' := after
    rw [found, Option.elim_some]
  | act asks found moves =>
    rw [found, ← Option.some.inj after]
    exact moves.rtt (unanswering_of_asks asks other)
  | create asks opens missing moves =>
    rw [missing, ← Option.some.inj after]
    exact moves.rtt (unanswering_of_asks asks other)
  | leave => cases after

/-- Packets that open a channel give no sample. -/
theorem sample?_of_opens {p : Packet} (opens : p.header.kind.opensChannel = true) :
    c.sample? ctx p = none := by
  unfold Channel.sample?
  cases kind : p.header.kind with
  | data | ping | reset | ackReset => rfl
  | ack | ackPing =>
    rw [kind] at opens
    cases opens

theorem sample?_of_missing (missing : t.find? key = none) : t.sample? now key op = none := by
  unfold sample?
  rw [missing]
  split <;> rfl

theorem sample?_of_other (concerned : t.concern? key op = some q) (other : ∀ p, q ≠ .packet p) :
    t.sample? now key op = none := by
  unfold sample?
  split
  · next p same => exact absurd (Option.some.inj (concerned.symm.trans same)) (other p)
  · rfl

theorem rtt_packet {p : Packet} (concerned : t.concern? key op = some (.packet p))
    (after : (serve (t.context now) key t.nextGeneration (t.find? key) (.packet p)).value =
      some c') :
    c'.rtt = (t.sample? now key op).elim ((t.find? key).elim {} Channel.rtt) fun s =>
      ((t.find? key).elim {} Channel.rtt).onSample s.2 := by
  cases found : t.find? key with
  | some c =>
    simp only [serve, found] at after
    rw [← Option.some.inj after]
    simp only [sample?, concerned, found, Option.bind_some]
    refine (onPacket_rtt _ c p).trans ?_
    cases c.sample? (t.context now) p <;> rfl
  | none =>
    simp only [serve, found] at after
    split at after
    · next opens =>
      rw [← Option.some.inj after, sample?_of_missing found]
      refine (onPacket_rtt _ _ p).trans ?_
      rw [sample?_of_opens opens]
      rfl
    · cases after

/-- The sample of a step is all that the estimator of the channel takes. -/
theorem rtt_part (after : (t.part now key op).value = some c') :
    c'.rtt = (t.sample? now key op).elim ((t.find? key).elim {} Channel.rtt) fun s =>
      ((t.find? key).elim {} Channel.rtt).onSample s.2 := by
  cases concerned : t.concern? key op with
  | none =>
    rw [part_of_unconcerned concerned] at after
    have found : t.find? key = some c' := after
    simp [sample?, concerned, found]
  | some q =>
    rw [part_of_concerned concerned] at after
    by_cases packet : ∃ p, q = .packet p
    · obtain ⟨p, rfl⟩ := packet
      exact rtt_packet concerned after
    · have other (p : Packet) : q ≠ .packet p := fun same => packet ⟨p, same⟩
      rw [sample?_of_other concerned other]
      exact (served_serve _ _ _ _ _).rtt other after

end ReliableDatagram.Table
