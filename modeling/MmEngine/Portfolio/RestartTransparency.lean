/-
# Restarts are transparent

Whatever an accountant has been through, a fresh one of the same capacity takes over
its ledger. From then on the two report the same of every fill and end with the same
ledger; and once every symbol that is not flat has been marked again, they report
the same portfolio PnL. A flat symbol needs no mark: it is worth nothing at any price.
-/

import MmEngine.Portfolio.Twins

namespace MmEngine.Portfolio

open MmEngine.Exchange

namespace PositionAccount

/-- The two accounts have one ledger, and one valuation if they hold anything. -/
def Level (a b : PositionAccount) : Prop :=
  a.save = b.save ∧ (a.position.raw ≠ 0 → a = b)

/-- A flat position is worth nothing at any price. -/
theorem checkedNotionalOf_of_flat {price : Px} {position : Qty} (h : position.raw = 0) :
    checkedNotionalOf price position = some .zero := by
  rw [checkedNotionalOf, h, Int.mul_zero, Int.zero_tdiv]
  rfl

/-- Level accounts add the same to a snapshot. -/
theorem Level.addAccount {a b : PositionAccount} (h : Level a b) (ha : a.Coherent)
    (hb : b.Coherent) (snapshot : PortfolioSnapshot) :
    snapshot.addAccount a = snapshot.addAccount b := by
  obtain ⟨hsave, hheld⟩ := h
  by_cases hflat : a.position.raw = 0
  · have hposition : a.position = b.position := congrArg State.position hsave
    have hflat' : b.position.raw = 0 := hposition ▸ hflat
    have hfaulted : a.faulted = b.faulted := congrArg State.faulted hsave
    have hpnl : a.pnl = b.pnl := by
      have hrealized : a.realized = b.realized := congrArg State.realized hsave
      have hfees : a.fees = b.fees := congrArg State.fees hsave
      obtain ⟨hvalid, hzero⟩ := ha.flat_valued hflat
      obtain ⟨hvalid', hzero'⟩ := hb.flat_valued hflat'
      simp only [pnl, hrealized, hfees, hvalid, hzero, hvalid', hzero']
    have hgross : a.checkedGrossExposure = b.checkedGrossExposure := by
      rw [checkedGrossExposure, checkedGrossExposure, if_pos (by simpa using hflat),
        if_pos (by simpa using hflat')]
    have hnet : checkedNotionalOf a.valuationPrice a.position =
        checkedNotionalOf b.valuationPrice b.position := by
      rw [checkedNotionalOf_of_flat hflat, checkedNotionalOf_of_flat hflat']
    have haddNet : ∀ snapshot : PortfolioSnapshot, snapshot.addNet a = snapshot.addNet b := by
      intro snapshot
      rw [PortfolioSnapshot.addNet, PortfolioSnapshot.addNet, hnet]
    have hisFlat : a.isFlat = b.isFlat := by rw [isFlat, isFlat, hposition]
    rw [PortfolioSnapshot.addAccount, PortfolioSnapshot.addAccount, hfaulted, hisFlat, hgross, hpnl]
    simp only [haddNet]
  · rw [hheld hflat]

end PositionAccount

namespace PortfolioSnapshot

/-- Level accounts, one after the other, add up to the same. -/
theorem foldl_addAccount_congr {accounts accounts' : List PositionAccount}
    (h : List.Forall₂ PositionAccount.Level accounts accounts')
    (hcoherent : ∀ account ∈ accounts, account.Coherent)
    (hcoherent' : ∀ account ∈ accounts', account.Coherent) (snapshot : PortfolioSnapshot) :
    accounts.foldl addAccount snapshot = accounts'.foldl addAccount snapshot := by
  induction h generalizing snapshot with
  | nil => rfl
  | cons hhead _ ih =>
      rw [List.forall_mem_cons] at hcoherent hcoherent'
      rw [List.foldl_cons, List.foldl_cons, hhead.addAccount hcoherent.1 hcoherent'.1,
        ih hcoherent.2 hcoherent'.2]

/-- The snapshot under another sequence number. -/
def numbered (snapshot : PortfolioSnapshot) (sequence : Nat) : PortfolioSnapshot :=
  { snapshot with sequence := sequence }

theorem addNet_numbered (snapshot : PortfolioSnapshot) (sequence : Nat)
    (account : PositionAccount) :
    (snapshot.numbered sequence).addNet account =
      (snapshot.addNet account).numbered sequence := by
  simp only [addNet, numbered]
  split
  · rfl
  · split <;> rfl

theorem addPnl_numbered (snapshot : PortfolioSnapshot) (sequence : Nat) (pnl : PnlBreakdown) :
    (snapshot.numbered sequence).addPnl pnl = (snapshot.addPnl pnl).numbered sequence := by
  simp only [addPnl, numbered]
  split
  · rfl
  split
  · rfl
  split
  · rfl
  split <;> rfl

/-- No account that is added reads the sequence number. -/
theorem addAccount_numbered (snapshot : PortfolioSnapshot) (sequence : Nat)
    (account : PositionAccount) :
    (snapshot.numbered sequence).addAccount account =
      (snapshot.addAccount account).numbered sequence := by
  have hcounted : (if account.isFlat then snapshot.numbered sequence
      else { snapshot.numbered sequence with
        symbolsWithPosition := (snapshot.numbered sequence).symbolsWithPosition + 1 }) =
      (if account.isFlat then snapshot
      else { snapshot with
        symbolsWithPosition := snapshot.symbolsWithPosition + 1 }).numbered sequence := by
    split <;> rfl
  rw [addAccount, addAccount, hcounted]
  split
  · rfl
  generalize (if account.isFlat then snapshot
    else { snapshot with symbolsWithPosition := snapshot.symbolsWithPosition + 1 }) = counted
  cases account.checkedGrossExposure with
  | none => rfl
  | some gross =>
      have hgross : (counted.numbered sequence).grossNotional = counted.grossNotional := rfl
      simp only [hgross]
      cases Fixed.checkedAdd counted.grossNotional gross.saturatingAbs with
      | none => rfl
      | some grossNotional =>
          have hnext := addNet_numbered { counted with grossNotional := grossNotional } sequence
            account
          have hadded := addPnl_numbered
            ({ counted with grossNotional := grossNotional }.addNet account) sequence account.pnl
          rw [← hnext] at hadded
          exact hadded

theorem foldl_addAccount_numbered (accounts : List PositionAccount) (snapshot : PortfolioSnapshot)
    (sequence : Nat) :
    accounts.foldl addAccount (snapshot.numbered sequence) =
      (accounts.foldl addAccount snapshot).numbered sequence := by
  induction accounts generalizing snapshot with
  | nil => rfl
  | cons account accounts ih =>
      rw [List.foldl_cons, List.foldl_cons, addAccount_numbered, ih]

theorem close_numbered (snapshot : PortfolioSnapshot) (sequence : Nat) :
    (snapshot.numbered sequence).close = snapshot.close.numbered sequence := by
  simp only [close, numbered]
  split <;> rfl

end PortfolioSnapshot

namespace PortfolioAccountant

/-- Accounts with one ledger are level, account by account, when the first of every
symbol is: one behind it is as a restart leaves it, in both. -/
theorem forall₂_level {accounts accounts' : List PositionAccount}
    (hledger : accounts.map PositionAccount.save = accounts'.map PositionAccount.save)
    (hshadowed : accounts.Pairwise fun first second =>
      first.symbol = second.symbol → second = second.unmarked)
    (hshadowed' : accounts'.Pairwise fun first second =>
      first.symbol = second.symbol → second = second.unmarked)
    (hfirst : ∀ symbol account,
      accounts.find? (fun account => account.symbol = symbol) = some account →
        account.position.raw ≠ 0 →
          accounts'.find? (fun account => account.symbol = symbol) = some account) :
    List.Forall₂ PositionAccount.Level accounts accounts' := by
  induction accounts generalizing accounts' with
  | nil =>
      cases accounts' with
      | nil => exact .nil
      | cons b accounts' => cases hledger
  | cons a accounts ih =>
      cases accounts' with
      | nil => cases hledger
      | cons b accounts' =>
          obtain ⟨hsave, hrest⟩ := List.cons.inj hledger
          have hsymbol : a.symbol = b.symbol := congrArg PositionAccount.State.symbol hsave
          rw [List.pairwise_cons] at hshadowed hshadowed'
          refine .cons ⟨hsave, ?_⟩ (ih hrest hshadowed.2 hshadowed'.2 ?_)
          · intro hheld
            have hfound := hfirst a.symbol a (List.find?_cons_of_pos (by simp)) hheld
            rw [List.find?_cons_of_pos (by simp [hsymbol])] at hfound
            exact (Option.some.inj hfound).symm
          · intro symbol account haccount hheld
            by_cases hhead : a.symbol = symbol
            · subst hhead
              rcases find?_cases hrest a.symbol with ⟨hnone, -⟩ | ⟨c, d, hc, hd, hcd⟩
              · rw [hnone] at haccount
                cases haccount
              · rw [hc] at haccount
                cases haccount
                have hcsymbol : account.symbol = a.symbol := by simpa using List.find?_some hc
                have hdsymbol : d.symbol = a.symbol := by simpa using List.find?_some hd
                have hcold := hshadowed.1 account (List.mem_of_find?_eq_some hc) hcsymbol.symm
                have hdold := hshadowed'.1 d (List.mem_of_find?_eq_some hd)
                  (hsymbol.symm.trans hdsymbol.symm)
                rw [hd, hcold, hdold, PositionAccount.unmarked_eq_of_save_eq hcd]
            · have hfound := hfirst symbol account
                (by rwa [List.find?_cons_of_neg (by simpa using hhead)]) hheld
              rwa [List.find?_cons_of_neg (by simpa [← hsymbol] using hhead)] at hfound

/-- Twins that are level wherever something is held take the same snapshot, the
sequence number apart. -/
theorem Twins.portfolioSnapshot {x y : PortfolioAccountant} (h : Twins x y) (hx : x.Recoverable)
    (hy : y.Recoverable)
    (hlevel : ∀ symbol account, x.find symbol = some account → account.position.raw ≠ 0 →
      x.find symbol = y.find symbol) (now : Nanos) :
    y.portfolioSnapshot now = (x.portfolioSnapshot now).numbered y.sequence := by
  have haccounts : List.Forall₂ PositionAccount.Level x.accounts y.accounts :=
    forall₂_level h.ledger hx.shadowed hy.shadowed fun symbol account hfound hheld =>
      (hlevel symbol account hfound hheld).symm.trans hfound
  have hfold := PortfolioSnapshot.foldl_addAccount_congr haccounts hx.coherent hy.coherent
    (PortfolioSnapshot.numbered
      { valid := true
        pnlDeterminate := true
        symbolCount := x.accounts.length
        sequence := x.sequence
        asOfNs := now } y.sequence)
  rw [PortfolioSnapshot.foldl_addAccount_numbered] at hfold
  simp only [PortfolioAccountant.portfolioSnapshot]
  rw [← PortfolioSnapshot.close_numbered, hfold, ← h.length]
  rfl

/-- A snapshot carries the sequence number of its accountant. -/
theorem portfolioSnapshot_numbered (accountant : PortfolioAccountant) (now : Nanos) :
    (accountant.portfolioSnapshot now).numbered accountant.sequence =
      accountant.portfolioSnapshot now := by
  rw [portfolioSnapshot, ← PortfolioSnapshot.close_numbered,
    ← PortfolioSnapshot.foldl_addAccount_numbered]
  rfl

/-! ## In step -/

theorem sequence_onFill (accountant : PortfolioAccountant) (fill : FillEvent) :
    (accountant.onFill fill).2.sequence =
      if (accountant.onFill fill).1.error = .none then accountant.sequence + 1
      else accountant.sequence := by
  cases hfind : accountant.find fill.symbol with
  | none =>
      simp only [onFill, hfind]
      rfl
  | some account => simp only [onFill, hfind]

theorem sequence_onMark (accountant : PortfolioAccountant) (mark : MarkPrice) (now : Nanos) :
    (accountant.onMark mark now).2.sequence =
      if (accountant.onMark mark now).1 = .none then accountant.sequence + 1
      else accountant.sequence := by
  cases hfind : accountant.find mark.symbol with
  | none =>
      simp only [onMark, hfind]
      rfl
  | some account => simp only [onMark, hfind]

theorem balances_onFill (accountant : PortfolioAccountant) (fill : FillEvent) :
    (accountant.onFill fill).2.balances = accountant.balances := by
  simp only [onFill]
  split <;> rfl

/-- Twins with one age limit and one sequence number: they give the same answers and
stay in step, whatever happens. -/
structure InStep (x y : PortfolioAccountant) : Prop extends Twins x y where
  age : x.config.maxMarkAgeNs = y.config.maxMarkAgeNs
  sequence : x.sequence = y.sequence

theorem inStep_step (op : Op) (x y : PortfolioAccountant) (h : InStep x y) :
    InStep (step op x) (step op y) := by
  refine ⟨twins_step op x y h.toTwins, ?_, ?_⟩
  · rw [config_step, config_step, h.age]
  · have hsequence := h.sequence
    cases op with
    | registerSymbol symbol =>
        have hkept : ∀ accountant : PortfolioAccountant,
            (accountant.registerSymbol symbol).2.sequence = accountant.sequence := by
          intro accountant
          simp only [registerSymbol]
          split_ifs <;> rfl
        rw [step, step, hkept, hkept, hsequence]
    | fill fill =>
        rw [step, step, sequence_onFill, sequence_onFill, h.onFill_outcome fill, hsequence]
    | mark mark now =>
        rw [step, step, sequence_onMark, sequence_onMark, h.onMark_answer h.age mark now, hsequence]
    | balance update now =>
        have hkept : ∀ accountant : PortfolioAccountant,
            (accountant.onBalance update now).2.sequence = accountant.sequence := by
          intro accountant
          simp only [onBalance]
          split_ifs <;> rfl
        rw [step, step, hkept, hkept, hsequence]
    | restore state =>
        rcases h.restore_cases state with ⟨hx, hy⟩ | ⟨-, hrestored⟩
        · rw [step, step, hx, hy, hsequence]
        · rw [step, step, hrestored]
    | clearFault symbol =>
        have hkept : ∀ accountant : PortfolioAccountant,
            (accountant.clearFault symbol).sequence = accountant.sequence := by
          intro accountant
          simp only [clearFault]
          split <;> rfl
        rw [step, step, hkept, hkept, hsequence]

theorem InStep.alike {x y : PortfolioAccountant} (h : InStep x y) (symbol : Symbol) (op : Op) :
    Alike symbol op x y := by
  cases op with
  | mark mark now => exact fun _ => h.onMark_answer h.age mark now
  | registerSymbol _ => trivial
  | fill _ => trivial
  | balance _ _ => trivial
  | restore _ => trivial
  | clearFault _ => trivial

theorem InStep.answerAlike {x y : PortfolioAccountant} (h : InStep x y) (symbol : Symbol)
    (ops : List Op) : AnswerAlike symbol ops x y := by
  induction ops generalizing x y with
  | nil => trivial
  | cons op ops ih => exact ⟨h.alike symbol op, ih (inStep_step op x y h)⟩

theorem InStep.marks {x y : PortfolioAccountant} (h : InStep x y) {symbol : Symbol} {op : Op}
    (hmarks : Marks symbol op x) : Marks symbol op y := by
  cases op with
  | mark mark now => exact ⟨hmarks.1, (h.onMark_answer h.age mark now).symm.trans hmarks.2⟩
  | registerSymbol _ => exact hmarks
  | fill _ => exact hmarks
  | balance _ _ => exact hmarks
  | restore _ => exact hmarks
  | clearFault _ => exact hmarks

/-- In step, a mark that one of them accepts is enough. -/
theorem InStep.remarked {x y : PortfolioAccountant} (h : InStep x y) {symbol : Symbol}
    {ops : List Op} (hmarked : Machine.Sometime step (Marks symbol) ops x) :
    Remarked symbol ops x y := by
  induction ops generalizing x y with
  | nil => exact hmarked
  | cons op ops ih =>
      have hnext := inStep_step op x y h
      rcases hmarked with hnow | hlater
      · exact .inl ⟨hnow, h.marks hnow, hnext.answerAlike symbol ops⟩
      · exact .inr (ih hnext hlater)

/-- The accountant after a fill. -/
def afterFill (fill : FillEvent) (accountant : PortfolioAccountant) : PortfolioAccountant :=
  (accountant.onFill fill).2

/-- What is reported of a fill. -/
def fillOutcome (fill : FillEvent) (accountant : PortfolioAccountant) : FillOutcome :=
  (accountant.onFill fill).1

/-- After a fill, twins that would be saved as the same still would. -/
theorem Twins.afterFill {x y : PortfolioAccountant} (h : Twins x y) (hsave : x.save = y.save)
    (fill : FillEvent) :
    Twins (afterFill fill x) (afterFill fill y) ∧
      (afterFill fill x).save = (afterFill fill y).save := by
  have hnext : Twins (x.onFill fill).2 (y.onFill fill).2 := twins_step (.fill fill) x y h
  have hsequence : x.sequence = y.sequence := congrArg RecoveryState.sequence hsave
  have hbalances : x.balances = y.balances := congrArg RecoveryState.balances hsave
  refine ⟨hnext, ?_⟩
  simp only [save, PortfolioAccountant.afterFill, hnext.ledger, sequence_onFill, balances_onFill,
    h.onFill_outcome fill, hsequence, hbalances]

theorem config_run (ops : List Op) (accountant : PortfolioAccountant) :
    (Machine.run step ops accountant).config = accountant.config :=
  Machine.invariant_run_always (I := fun after => after.config = accountant.config)
    (fun op after h => (config_step op after).trans h) ops rfl

theorem recoverable_run (ops : List Op) {accountant : PortfolioAccountant}
    (h : accountant.Recoverable) : (Machine.run step ops accountant).Recoverable :=
  Machine.invariant_run_always recoverable_step ops h

/-- The restored accountant is a twin of the original, and would be saved as it. -/
theorem Recoverable.twins_restored {accountant : PortfolioAccountant} (h : accountant.Recoverable)
    {config : AccountingConfig} (hcapacity : config.maxSymbols = accountant.config.maxSymbols) :
    Twins accountant ((new config).restore accountant.save).2 ∧
      ((new config).restore accountant.save).2.save = accountant.save := by
  have hledger : (accountant.accounts.map PositionAccount.unmarked).map PositionAccount.save =
      accountant.accounts.map PositionAccount.save := by
    rw [List.map_map]
    rfl
  rw [h.restore_save hcapacity]
  constructor
  · exact ⟨hcapacity.symm, hledger.symm⟩
  · simp only [save, hledger]

/-- A restart is transparent. The fresh accountant need not allow marks the same age;
where it does, one accepted mark of each symbol that is not flat is enough. -/
theorem restart_transparent {config fresh : AccountingConfig}
    (hcapacity : fresh.maxSymbols = config.maxSymbols) (ops : List Op) :
    let original := Machine.run step ops (new config)
    let restored := ((new fresh).restore original.save).2
    ((new fresh).restore original.save).1 = .none ∧
      (∀ fills : List FillEvent,
        Machine.outputs afterFill fillOutcome fills restored =
            Machine.outputs afterFill fillOutcome fills original ∧
          (Machine.run afterFill fills restored).save =
            (Machine.run afterFill fills original).save) ∧
      (∀ (later : List Op) (now : Nanos),
        (∀ symbol account, (Machine.run step later original).find symbol = some account →
          account.position.raw ≠ 0 → Remarked symbol later original restored) →
        (Machine.run step later restored).portfolioSnapshot now =
          ((Machine.run step later original).portfolioSnapshot now).numbered
            (Machine.run step later restored).sequence) ∧
      (fresh.maxMarkAgeNs = config.maxMarkAgeNs → ∀ (later : List Op) (now : Nanos),
        (∀ symbol account, (Machine.run step later original).find symbol = some account →
          account.position.raw ≠ 0 → Machine.Sometime step (Marks symbol) later original) →
        (Machine.run step later restored).portfolioSnapshot now =
          (Machine.run step later original).portfolioSnapshot now) := by
  intro original restored
  have hrecoverable : original.Recoverable := recoverable_run ops (recoverable_new config)
  have hconfig : original.config = config := config_run ops (new config)
  have hroom : fresh.maxSymbols = original.config.maxSymbols := by rw [hconfig, hcapacity]
  have hrestored : restored.Recoverable := (recoverable_new fresh).restore original.save
  have hfresh : restored.config = fresh := config_step (.restore original.save) (new fresh)
  obtain ⟨htwins, hsave⟩ := hrecoverable.twins_restored hroom
  have hsnapshot : ∀ (later : List Op) (now : Nanos),
      (∀ symbol account, (Machine.run step later original).find symbol = some account →
        account.position.raw ≠ 0 → Remarked symbol later original restored) →
      (Machine.run step later restored).portfolioSnapshot now =
        ((Machine.run step later original).portfolioSnapshot now).numbered
          (Machine.run step later restored).sequence := by
    intro later now hmarked
    refine Twins.portfolioSnapshot (Machine.run_congr twins_step later htwins)
      (recoverable_run later hrecoverable) (recoverable_run later hrestored) ?_ now
    exact fun symbol account hfind hheld =>
      htwins.find_eq_of_remarked (hmarked symbol account hfind hheld)
  refine ⟨?_, ?_, hsnapshot, ?_⟩
  · rw [hrecoverable.restore_save hroom]
  · intro fills
    have hkept : ∀ (fill : FillEvent) (x y : PortfolioAccountant),
        Twins x y ∧ x.save = y.save →
          Twins (afterFill fill x) (afterFill fill y) ∧
            (afterFill fill x).save = (afterFill fill y).save :=
      fun fill x y h => h.1.afterFill h.2 fill
    have hsame : Twins original restored ∧ original.save = restored.save := ⟨htwins, hsave.symm⟩
    constructor
    · exact (Machine.outputs_congr (fun fill x y h => h.1.onFill_outcome fill) hkept fills
        hsame).symm
    · exact (Machine.run_congr hkept fills hsame).2.symm
  · intro hage later now hmarked
    have hinStep : InStep original restored :=
      ⟨htwins, by rw [hconfig, hfresh, hage], (congrArg RecoveryState.sequence hsave).symm⟩
    have hlater := Machine.run_congr inStep_step later hinStep
    rw [hsnapshot later now fun symbol account hfind hheld =>
      hinStep.remarked (hmarked symbol account hfind hheld), ← hlater.sequence,
      portfolioSnapshot_numbered]

/-- A mark of the symbol, at the time it was taken. -/
def sampleMark : Op :=
  .mark
    { symbol := sampleSymbol
      bid := ⟨80000000, by decide, by decide⟩
      ask := ⟨120000000, by decide, by decide⟩
      asOfNs := 3 } 3

/-- A symbol is registered, bought and marked. -/
def sampleHistory : List Op := [.registerSymbol sampleSymbol, .fill (sampleFill .zero), sampleMark]

/-- An accountant that holds a position is restarted: the fill it has counted is still
a duplicate, and after a mark it reports the same determinate loss. -/
theorem restart_transparent_held :
    let original := Machine.run step sampleHistory (new {})
    let restored := ((new {}).restore original.save).2
    original.save.accounts.map (·.position.raw) = [100000000] ∧
      ((new {}).restore original.save).1 = .none ∧
      (fillOutcome (sampleFill .zero) restored).error = .duplicateFill ∧
      fillOutcome (sampleFill .zero) restored = fillOutcome (sampleFill .zero) original ∧
      ((Machine.run step [sampleMark] original).portfolioSnapshot 3).pnlDeterminate = true ∧
      (Machine.run step [sampleMark] restored).portfolioSnapshot 3 =
        (Machine.run step [sampleMark] original).portfolioSnapshot 3 := by
  intro original restored
  obtain ⟨hrestore, hfills, -, hmarked⟩ := @restart_transparent {} {} rfl sampleHistory
  have houtcome := (hfills [sampleFill .zero]).1
  refine ⟨by decide, hrestore, by decide, (List.cons.inj houtcome).1, by decide, ?_⟩
  apply hmarked rfl
  intro symbol account hfind _
  have hsymbols : (Machine.run step [sampleMark] original).accounts.map (·.symbol) =
      [sampleSymbol] := by decide
  have hmem := List.mem_map_of_mem (f := (·.symbol)) (List.mem_of_find?_eq_some hfind)
  rw [hsymbols, List.mem_singleton, symbol_of_find hfind] at hmem
  subst hmem
  exact .inl ⟨rfl, by decide⟩

end PortfolioAccountant

end MmEngine.Portfolio
