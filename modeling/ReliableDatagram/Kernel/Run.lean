import ReliableDatagram.Kernel.Basic

/-!
# Runs and timetables of a kernel

In a timetable, the kernel ticks at the multiples of its interval, from time 0 on, and all other
inputs come halfway between two ticks.
-/

namespace ReliableDatagram.Kernel

/-- An input together with its time and the sends that fail during it. -/
structure Timed where
  now : Nat
  fails : Nat → Bool
  input : Input

def run : List Timed → Kernel → Logged Action Kernel
  | [], k => pure k
  | i :: is, k => do run is (← k.step i.now i.fails i.input)

structure Timetable where
  kernel : Kernel
  interval : Nat
  /-- How many ticks followed the one at time 0. -/
  ticks : Nat := 0

namespace Timetable

def start (table : Table) : Logged Action Timetable := do
  let kernel ← Kernel.step { table } 0 (fun _ => false) (.request .tick)
  return { kernel, interval := table.config.tickInterval }

def now (t : Timetable) : Nat := t.ticks * t.interval + t.interval / 2

def input (t : Timetable) (fails : Nat → Bool) (i : Input) : Logged Action Timetable := do
  let kernel ← t.kernel.step t.now fails i
  return { t with kernel }

def tick (t : Timetable) (fails : Nat → Bool) : Logged Action Timetable := do
  let ticks := t.ticks + 1
  let kernel ← t.kernel.step (ticks * t.interval) fails (.request .tick)
  return { t with kernel, ticks }

end Timetable

end ReliableDatagram.Kernel
