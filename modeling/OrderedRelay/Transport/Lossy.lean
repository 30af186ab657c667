import OrderedRelay.Binary64.Basic
import OrderedRelay.Transport.Publication

/-!
# Losses on the way

A lossy layer lies in front of a transport and spoils what is published: some publications are dropped,
some leave twice, and if there is a window, they are held until it is full and then leave in any order.
The draws behind these choices are arguments, so that a statement about the layer can speak of every
outcome.
-/

namespace OrderedRelay

structure LossyConfig where
  dropRate : Binary64 := .zero
  duplicateRate : Binary64 := .zero
  window : Nat := 0
  seed : Option Nat := none
  logsDrops : Bool := false
deriving DecidableEq

namespace LossyConfig

def rate (x : Binary64) : Binary64 := Binary64.clamp .zero .one x

def dropping (x : Binary64) : LossyConfig := { dropRate := rate x, logsDrops := true }

def dropAll : LossyConfig := dropping .one

def withDuplicates (c : LossyConfig) (x : Binary64) : LossyConfig := { c with duplicateRate := rate x }

/-- Whether anything can be spoiled; a window of one keeps the order. -/
def isLossy (c : LossyConfig) : Bool :=
  Binary64.zero.below c.dropRate || Binary64.zero.below c.duplicateRate || 1 < c.window

end LossyConfig

structure LossyStats where
  total : UInt64 := 0
  dropped : UInt64 := 0
  duplicated : UInt64 := 0
  passed : UInt64 := 0
deriving DecidableEq

def LossyStats.dropRate (s : LossyStats) : Binary64 :=
  if s.total = 0 then .zero else (Binary64.ofNat s.dropped.toNat).div (.ofNat s.total.toNat)

/-- The draws behind one publication: two numbers from 0 to 1, and the order in which a full window
leaves. -/
structure Chance where
  dropDraw : Binary64
  duplicateDraw : Binary64
  order : List Nat

/-- Takes elements out one by one, each at the drawn position among those left; without draws the rest
keeps its order. -/
def arrange {α : Type} : List Nat → List α → List α
  | _, [] => []
  | [], l => l
  | d :: ds, x :: xs =>
    let l := x :: xs
    let i := d % l.length
    (l[i]?).toList ++ arrange ds (l.eraseIdx i)

def LossyConfig.hits (rate draw : Binary64) : Bool :=
  if rate.atMost .zero then false else if Binary64.one.atMost rate then true else draw.below rate

structure Lossy where
  config : LossyConfig := {}
  stats : LossyStats := {}
  held : List Publication := []
deriving DecidableEq

namespace Lossy

def copies (c : LossyConfig) (chance : Chance) (p : Publication) : List Publication :=
  if LossyConfig.hits c.dropRate chance.dropDraw then []
  else if LossyConfig.hits c.duplicateRate chance.duplicateDraw then [p, p]
  else [p]

def count (s : LossyStats) (copies : Nat) : LossyStats where
  total := s.total + 1
  dropped := if copies = 0 then s.dropped + 1 else s.dropped
  duplicated := if copies = 2 then s.duplicated + 1 else s.duplicated
  passed := s.passed + .ofNat copies

/-- Offers a publication; gives what leaves the layer now, in order. -/
def offer (l : Lossy) (chance : Chance) (p : Publication) : Lossy × List Publication :=
  let copies := copies l.config chance p
  let l := { l with stats := count l.stats copies.length }
  if copies.isEmpty then (l, [])
  else if l.config.window ≤ 1 then (l, copies)
  else
    let held := l.held ++ copies
    if held.length < l.config.window then ({ l with held := held }, [])
    else ({ l with held := [] }, arrange chance.order held)

def flush (l : Lossy) (order : List Nat) : Lossy × List Publication :=
  ({ l with held := [] }, arrange order l.held)

def discard (l : Lossy) : Lossy := { l with held := [] }

def resetStats (l : Lossy) : Lossy := { l with stats := {} }

end Lossy

end OrderedRelay
