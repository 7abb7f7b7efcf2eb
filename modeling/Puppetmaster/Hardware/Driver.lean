import Puppetmaster.Hardware.Types
import Puppetmaster.Library.Fifo
import Puppetmaster.Library.Guard

namespace Puppetmaster.Hardware

open Library

-- TxnDriver.bsv, module mkFakeTxnDriver

abbrev LogFakeTxnBRAMSize : ℕ := 12
abbrev FakeTxnBRAMSize : ℕ := 2 ^ LogFakeTxnBRAMSize

structure FakeTxnDriver where
  cycle : Timestamp
  -- whether populate_txn has fired in this cycle
  populated : Bool
  txns : Fifo Transaction FakeTxnBRAMSize
  started : Bool
  outCount : BitVec LogFakeTxnBRAMSize
  totalWaitTime : Timestamp
  waitTimer : Timestamp
  outFF : Fifo Transaction 1

namespace FakeTxnDriver

def reset : FakeTxnDriver where
  cycle := 0
  populated := false
  txns := Fifo.empty
  started := false
  outCount := 0
  totalWaitTime := 0
  waitTimer := 0
  outFF := Fifo.empty

def tick (s : FakeTxnDriver) : FakeTxnDriver :=
  { s with cycle := s.cycle + 1, populated := false }

-- The rule gives the transaction that it takes from the queue, if it takes one.
def populate_txn (s : FakeTxnDriver) : Option (Option Transaction × FakeTxnDriver) := do
  require (s.started = true ∧ s.populated = false)
  if s.totalWaitTime ≤ s.waitTimer then do
    let (txn, txns) ← s.txns.deq
    let outFF ← s.outFF.enq txn
    some (some txn, { s with
      populated := true
      txns := txns
      outCount := s.outCount + 1
      outFF := outFF
      waitTimer := 0 })
  else some (none, { s with populated := true, waitTimer := s.waitTimer + 1 })

def fromHost_put (s : FakeTxnDriver) (txn : Transaction) : Option FakeTxnDriver := do
  let txns ← s.txns.enq txn
  some { s with txns := txns }

def trigger (s : FakeTxnDriver) : FakeTxnDriver := { s with started := true }

def transactions_get (s : FakeTxnDriver) : Option (Transaction × FakeTxnDriver) := do
  let (txn, outFF) ← s.outFF.deq
  some (txn, { s with outFF := outFF })

def setDuration (s : FakeTxnDriver) (duration : Timestamp) : FakeTxnDriver :=
  { s with totalWaitTime := duration }

variable {s t : FakeTxnDriver} {txn : Transaction}

theorem populate_some (h : s.populate_txn = some (some txn, t)) :
    s.started = true ∧ s.populated = false ∧ s.totalWaitTime ≤ s.waitTimer ∧
      ∃ (qt : Fifo Transaction FakeTxnBRAMSize) (qo : Fifo Transaction 1),
        s.txns.items = txn :: qt.items ∧ qo.items = s.outFF.items ++ [txn] ∧
        t = { s with
          populated := true
          txns := qt
          outCount := s.outCount + 1
          outFF := qo
          waitTimer := 0 } := by
  simp only [populate_txn, Option.bind_eq_bind, Option.bind_eq_some_iff, require_eq_some,
    exists_const] at h
  obtain ⟨⟨hstarted, hpopulated⟩, h⟩ := h
  by_cases hwait : s.totalWaitTime ≤ s.waitTimer
  · simp only [if_pos hwait, Option.bind_eq_some_iff, Prod.exists, Fifo.deq_eq_some, Fifo.enq_eq_some,
      Option.some.injEq, Prod.mk.injEq] at h
    obtain ⟨x, qt, htxns, qo, hout, rfl, rfl⟩ := h
    exact ⟨hstarted, hpopulated, hwait, qt, qo, htxns, hout, rfl⟩
  · simp [if_neg hwait] at h

theorem populate_none (h : s.populate_txn = some (none, t)) :
    s.populated = false ∧ s.waitTimer < s.totalWaitTime ∧
      t = { s with populated := true, waitTimer := s.waitTimer + 1 } := by
  simp only [populate_txn, Option.bind_eq_bind, Option.bind_eq_some_iff, require_eq_some,
    exists_const] at h
  obtain ⟨⟨-, hpopulated⟩, h⟩ := h
  by_cases hwait : s.totalWaitTime ≤ s.waitTimer
  · simp only [if_pos hwait, Option.bind_eq_some_iff, Option.some.injEq, Prod.mk.injEq] at h
    obtain ⟨_, -, _, -, hnone, -⟩ := h
    cases hnone
  · simp only [if_neg hwait, Option.some.injEq, Prod.mk.injEq, true_and] at h
    exact ⟨hpopulated, BitVec.not_le.mp hwait, h.symm⟩

theorem fromHost_put_eq_some : s.fromHost_put txn = some t ↔
    ∃ qt : Fifo Transaction FakeTxnBRAMSize, qt.items = s.txns.items ++ [txn] ∧ t = { s with txns := qt } := by
  simp only [fromHost_put, Option.bind_eq_bind, Option.bind_eq_some_iff, Fifo.enq_eq_some,
    Option.some.injEq, eq_comm (a := t)]

theorem transactions_get_eq_some : s.transactions_get = some (txn, t) ↔
    ∃ qo : Fifo Transaction 1, s.outFF.items = txn :: qo.items ∧ t = { s with outFF := qo } := by
  simp only [transactions_get, Option.bind_eq_bind, Option.bind_eq_some_iff, Prod.exists,
    Fifo.deq_eq_some, Option.some.injEq, Prod.mk.injEq]
  constructor
  · rintro ⟨x, qo, hout, rfl, rfl⟩
    exact ⟨qo, hout, rfl⟩
  · rintro ⟨qo, hout, rfl⟩
    exact ⟨txn, qo, hout, rfl, rfl⟩

end FakeTxnDriver

end Puppetmaster.Hardware
