/-
# The two rings of applied trades

The order manager remembers the trades of one order, the ledger those of one account. Both
are asked the same question of every fill, whether its trade has been applied already, and
both answer it from the trades they accepted last.
-/

import MmEngine.Lib.Recency
import MmEngine.Oms.OrderRecord
import MmEngine.Portfolio.PositionAccount

namespace MmEngine

open MmEngine.Exchange MmEngine.Oms MmEngine.Portfolio

namespace Oms.SeenTradeIds

/-- The identifiers the ring holds. -/
def remembered (seen : SeenTradeIds) : List TradeId := seen.ids.take seen.count

/-- One call of `insert`: what it returns, and the ring after it. -/
def insertCall (seen : SeenTradeIds) (id : TradeId) : Bool × SeenTradeIds :=
  match seen.insert id with
  | none => (false, seen)
  | some after => (true, after)

/-- The ring has accepted the identifiers of the history. -/
def Tracks (seen : SeenTradeIds) (history : List TradeId) : Prop :=
  Recency.Remembers kCapacity seen.ids seen.count seen.next seen.overflowed history

variable {seen : SeenTradeIds} {history : List TradeId} {id : TradeId}

theorem contains_iff : seen.contains id = true ↔ id ∈ seen.remembered := by
  simp [contains, remembered]

theorem insertCall_returns : (seen.insertCall id).1 = true ↔ id ∉ seen.remembered := by
  rw [← contains_iff, insertCall, insert]
  cases seen.contains id <;> simp

theorem tracks_empty : empty.Tracks [] := .nil List.length_replicate

theorem Tracks.accepted (h : seen.Tracks history) (hcall : (seen.insertCall id).1 = true) :
    (seen.insertCall id).2.Tracks (history ++ [id]) := by
  have hnew := insertCall_returns.mp hcall
  have hcontains : seen.contains id = false := by
    rw [← Bool.not_eq_true, contains_iff]
    exact hnew
  rw [insertCall, insert, if_neg (by simp [hcontains])]
  exact h.record (by decide) hnew

theorem Tracks.refused (h : seen.Tracks history) (hcall : (seen.insertCall id).1 = false) :
    (seen.insertCall id).2.Tracks history := by
  rw [insertCall] at hcall ⊢
  split at hcall
  · exact h
  · cases hcall

theorem tracks_insertAll (calls : List TradeId) :
    (Recency.insertAll insertCall calls empty).2.Tracks
      (Recency.insertAll insertCall calls empty).1 := by
  have hrun := Recency.insertAll_invariant (I := Tracks)
    (fun _ _ _ h hcall => h.accepted hcall) (fun _ _ _ h hcall => h.refused hcall) calls empty []
    tracks_empty
  rwa [List.nil_append] at hrun

end Oms.SeenTradeIds

namespace Portfolio.SeenTrades

def kCapacity : Nat := 64

/-- The identifiers the ring holds. -/
def remembered (seen : SeenTrades) : List TradeId := seen.ids.take seen.count

/-- One call of `insert`: what it returns, and the ring after it. -/
def insertCall (seen : SeenTrades) (id : TradeId) : Bool × SeenTrades :=
  (!seen.contains id, seen.insert id)

/-- The ring has accepted the identifiers of the history. -/
def Tracks (seen : SeenTrades) (history : List TradeId) : Prop :=
  Recency.Remembers kCapacity seen.ids seen.count seen.next seen.overflowed history

variable {seen : SeenTrades} {history : List TradeId} {id : TradeId}

theorem contains_iff : seen.contains id = true ↔ id ∈ remembered seen := by
  simp [KeyRing.contains, remembered]

theorem insertCall_returns : (insertCall seen id).1 = true ↔ id ∉ remembered seen := by
  rw [← contains_iff, insertCall, Bool.not_eq_true', Bool.not_eq_true]

theorem tracks_empty : Tracks KeyRing.empty [] := .nil List.length_replicate

theorem Tracks.accepted (h : Tracks seen history) (hcall : (insertCall seen id).1 = true) :
    Tracks (insertCall seen id).2 (history ++ [id]) := by
  have hnew := insertCall_returns.mp hcall
  have hcontains : seen.contains id = false := by
    rw [← Bool.not_eq_true, contains_iff]
    exact hnew
  -- The flag is set when the ring is full; the count never passes the capacity.
  have hfull : decide (seen.count = 64) = !decide (seen.count < 64) := by
    have hle := seen.count_le
    rw [← decide_not, decide_eq_decide]
    omega
  have hrecorded := Recency.Remembers.record h (by decide) hnew
  simp only [insertCall, KeyRing.insert, Tracks]
  rw [if_neg (by simp [hcontains])]
  dsimp only
  rw [hfull]
  exact hrecorded

theorem Tracks.refused (h : Tracks seen history) (hcall : (insertCall seen id).1 = false) :
    Tracks (insertCall seen id).2 history := by
  rw [insertCall, Bool.not_eq_false'] at hcall
  rwa [insertCall, KeyRing.insert, if_pos hcall]

theorem tracks_insertAll (calls : List TradeId) :
    Tracks (Recency.insertAll insertCall calls KeyRing.empty).2
      (Recency.insertAll insertCall calls KeyRing.empty).1 := by
  have hrun := Recency.insertAll_invariant (I := Tracks)
    (fun _ _ _ h hcall => h.accepted hcall) (fun _ _ _ h hcall => h.refused hcall) calls
    KeyRing.empty [] tracks_empty
  rwa [List.nil_append] at hrun

end Portfolio.SeenTrades

section Runs

variable (calls : List TradeId)

/-- The ring of an order after a run of inserts, behind the identifiers they accepted. -/
def orderRing : List TradeId × SeenTradeIds :=
  Recency.insertAll SeenTradeIds.insertCall calls .empty

/-- The ring of an account after a run of inserts, behind the identifiers they accepted. -/
def accountRing : List TradeId × SeenTrades :=
  Recency.insertAll SeenTrades.insertCall calls .empty

/-- After any run of inserts each ring accepts the identifiers it does not hold, holds the
last it accepted, all different, and has its flag down as long as it has lost none. -/
theorem rings_hold_last_accepted :
    ((∀ id, ((orderRing calls).2.insertCall id).1 = true ↔ id ∉ (orderRing calls).2.remembered) ∧
        Recency.MostRecent SeenTradeIds.kCapacity (orderRing calls).2.remembered
          (orderRing calls).1 (orderRing calls).2.overflowed) ∧
      (∀ id, (SeenTrades.insertCall (accountRing calls).2 id).1 = true ↔
          id ∉ SeenTrades.remembered (accountRing calls).2) ∧
        Recency.MostRecent SeenTrades.kCapacity (SeenTrades.remembered (accountRing calls).2)
          (accountRing calls).1 (accountRing calls).2.overflowed :=
  ⟨⟨fun _ => SeenTradeIds.insertCall_returns, (SeenTradeIds.tracks_insertAll calls).mostRecent⟩,
    fun _ => SeenTrades.insertCall_returns, (SeenTrades.tracks_insertAll calls).mostRecent⟩

end Runs

end MmEngine
