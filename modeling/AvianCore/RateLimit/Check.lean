import AvianCore.Lib.Machine

/-!
The shared table that limits the rate of each client (`avian_ratelimit.c`). A client is
the bytes of its address that count; its entry is one of eight neighbours that its hash leads to,
found by the key it holds, claimed when it is free, or taken over from a client that is back at a full
burst. A call is one step here.
-/

namespace AvianCore.RateLimit
open AvianCore.Lib

def mix (x : UInt64) : UInt64 :=
  let x := x ^^^ (x >>> 30)
  let x := x * 0xbf58476d1ce4e5b9
  let x := x ^^^ (x >>> 27)
  let x := x * 0x94d049bb133111eb
  x ^^^ (x >>> 31)

def hashBytes (seed : UInt64) (bytes : List UInt8) : UInt64 :=
  mix (bytes.foldl (fun h byte => (h ^^^ byte.toUInt64) * 0x100000001b3)
    (seed ^^^ (0xcbf29ce484222325 + UInt64.ofNat bytes.length)))

/-- The key of a client, which is never 0. -/
def keyOf (seed : UInt64) (client : List UInt8) : Nat :=
  if hashBytes seed client = 0 then 1 else (hashBytes seed client).toNat

theorem keyOf_pos (seed : UInt64) (client : List UInt8) : 0 < keyOf seed client := by
  unfold keyOf
  split
  · exact Nat.one_pos
  next nonzero =>
    apply Nat.pos_of_ne_zero
    intro zero
    exact nonzero (UInt64.toNat_inj.mp zero)

def probes : Nat := 8

structure Entry where
  /-- 0 when it was never used. -/
  key : Nat := 0
  /-- The theoretical arrival time, in microseconds. -/
  tat : Nat := 0
deriving DecidableEq, Repr

/-- What `av_ratelimit_init` settles. -/
structure Limits where
  emission : Nat
  tolerance : Nat
  log2Entries : Nat
  seed : UInt64
  positive : 0 < emission
  large : 8 ≤ log2Entries

def Limits.entries (limits : Limits) : Nat := 2 ^ limits.log2Entries

abbrev Table := Nat → Entry

def Table.fresh : Table := fun _ => {}

def Limits.places (limits : Limits) (key : Nat) : List Nat :=
  (List.range probes).map fun p => (key + p) % limits.entries

/-- The first pass of `find`: the client's entry or a free one. -/
def Table.seek (t : Table) (key : Nat) : List Nat → Option (Nat × Table)
  | [] => none
  | e :: rest =>
    if (t e).key = key then some (e, t)
    else if (t e).key = 0 then some (e, Function.update t e { t e with key := key })
    else t.seek key rest

def Table.takeOver (t : Table) (key now : Nat) : List Nat → Option (Nat × Table)
  | [] => none
  | e :: rest =>
    if (t e).key = key then some (e, t)
    else if (t e).tat ≤ now then some (e, Function.update t e { t e with key := key })
    else t.takeOver key now rest

def Table.find (limits : Limits) (t : Table) (key now : Nat) : Option (Nat × Table) :=
  (t.seek key (limits.places key)).orElse fun _ => t.takeOver key now (limits.places key)

/-- `av_ratelimit_check` for a client, with the delay it returns, or `none` when it finds no entry and
lets the client through. -/
def Table.check (limits : Limits) (t : Table) (client : List UInt8) (now : Nat) : Table × Option Nat :=
  match t.find limits (keyOf limits.seed client) now with
  | none => (t, none)
  | some (e, t) =>
    let base := max (t e).tat now
    if limits.tolerance < base - now then (t, some (base - now - limits.tolerance))
    else
      (Function.update t e { t e with tat := word (base + limits.emission) }, some 0)

/-- A call and what it returned. -/
structure Call where
  client : List UInt8
  now : Nat
  result : Option Nat
deriving DecidableEq, Repr

def run (limits : Limits) : List (List UInt8 × Nat) → Table × List Call :=
  List.foldl (fun state call =>
    let checked := state.1.check limits call.1 call.2
    (checked.1, ⟨call.1, call.2, checked.2⟩ :: state.2)) (Table.fresh, [])

end AvianCore.RateLimit
