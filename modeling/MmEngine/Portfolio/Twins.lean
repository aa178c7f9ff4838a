/-
# Two accountants with one ledger

A fill reads nothing of an accountant but what would be saved of it, and the answer
to a mark depends besides only on the age it allows. So two accountants with one
ledger stay that way, whatever happens to both. Their valuations may differ; a mark
that both accept brings the account of its symbol level, and it stays level until a
mark of it is answered in two ways.
-/

import MmEngine.Portfolio.Recovery

namespace MmEngine.Portfolio

open MmEngine.Exchange

namespace PositionAccount

theorem unmarked_eq_of_save_eq {a b : PositionAccount} (h : a.save = b.save) :
    a.unmarked = b.unmarked := by
  cases a
  cases b
  simp only [save, State.mk.injEq] at h
  obtain ⟨rfl, rfl, rfl, rfl, rfl, rfl, rfl, rfl⟩ := h
  rfl

theorem commitFill_unmarked (account : PositionAccount) (tradeId : TradeId) (side : Side)
    (price : Px) (quantity : Qty) (fee : Notional) :
    (account.unmarked.commitFill tradeId side price quantity fee).map (Prod.map id save) =
      (account.commitFill tradeId side price quantity fee).map (Prod.map id save) := by
  simp only [commitFill, Option.bind_eq_bind, Option.map_bind, Function.comp_def, Option.map_some]
  rfl

theorem applyFill_unmarked (account : PositionAccount) (tradeId : TradeId) (side : Side)
    (price : Px) (quantity : Qty) (fee : Notional) :
    (account.unmarked.applyFill tradeId side price quantity fee).map id save =
      (account.applyFill tradeId side price quantity fee).map id save := by
  have hcommit := account.commitFill_unmarked tradeId side price quantity fee
  have hscreen : account.unmarked.screenFill tradeId price quantity fee =
      account.screenFill tradeId price quantity fee := rfl
  rw [applyFill, applyFill, hscreen]
  split
  · cases hleft : account.unmarked.commitFill tradeId side price quantity fee with
    | none =>
        rw [hleft, Option.map_none, eq_comm, Option.map_eq_none_iff] at hcommit
        rw [hcommit]
        rfl
    | some result =>
        rw [hleft, Option.map_some, eq_comm, Option.map_eq_some_iff] at hcommit
        obtain ⟨other, hother, hsame⟩ := hcommit
        rw [hother]
        exact hsame.symm
  · rfl

/-- A fill reads nothing of an account but what is saved of it. -/
theorem applyFill_congr {a b : PositionAccount} (h : a.save = b.save) (tradeId : TradeId)
    (side : Side) (price : Px) (quantity : Qty) (fee : Notional) :
    (a.applyFill tradeId side price quantity fee).1 =
        (b.applyFill tradeId side price quantity fee).1 ∧
      (a.applyFill tradeId side price quantity fee).2.save =
        (b.applyFill tradeId side price quantity fee).2.save := by
  have ha := a.applyFill_unmarked tradeId side price quantity fee
  have hb := b.applyFill_unmarked tradeId side price quantity fee
  rw [unmarked_eq_of_save_eq h, hb] at ha
  exact ⟨(congrArg Prod.fst ha).symm, (congrArg Prod.snd ha).symm⟩

theorem save_fault (account : PositionAccount) :
    account.fault.save = { account.save with faulted := true } := rfl

theorem save_clearFault (account : PositionAccount) :
    account.clearFault.save = { account.save with faulted := false } := rfl

theorem save_applyMark (account : PositionAccount) (mark : MarkPrice) (nowNs maxAgeNs : Nanos) :
    (account.applyMark mark nowNs maxAgeNs).2.save = account.save := by
  rcases applyMark_cases account mark nowNs maxAgeNs with ⟨-, hrefused⟩ | ⟨-, haccepted⟩
  · obtain ⟨lastMark, hafter⟩ := hrefused.after_eq
    rw [hafter]
    rfl
  · obtain ⟨value, -, -, hafter⟩ := haccepted.after_eq
    rw [hafter]
    rfl

theorem applyMark_unmarked (account : PositionAccount) (mark : MarkPrice)
    (nowNs maxAgeNs : Nanos) :
    (account.unmarked.applyMark mark nowNs maxAgeNs).1 =
      (account.applyMark mark nowNs maxAgeNs).1 := by
  have hposition : account.unmarked.position = account.position := rfl
  have haverage : account.unmarked.averagePrice = account.averagePrice := rfl
  simp only [applyMark, hposition, haverage]
  split
  · rfl
  split
  · rfl
  split
  · rfl
  · split <;> rfl

/-- The answer to a mark does not depend on the marks before it. -/
theorem applyMark_answer_congr {a b : PositionAccount} (h : a.save = b.save) (mark : MarkPrice)
    (nowNs maxAgeNs : Nanos) :
    (a.applyMark mark nowNs maxAgeNs).1 = (b.applyMark mark nowNs maxAgeNs).1 := by
  rw [← applyMark_unmarked a, ← applyMark_unmarked b, unmarked_eq_of_save_eq h]

/-- A mark that two accounts with one ledger accept leaves them the same, whatever
they were marked at before, and whatever age each allows. -/
theorem applyMark_eq_of_accepted {a b : PositionAccount} (h : a.save = b.save) {mark : MarkPrice}
    {nowNs maxAgeNs maxAgeNs' : Nanos} (ha : (a.applyMark mark nowNs maxAgeNs).1 = .none)
    (hb : (b.applyMark mark nowNs maxAgeNs').1 = .none) :
    (a.applyMark mark nowNs maxAgeNs).2 = (b.applyMark mark nowNs maxAgeNs').2 := by
  have haccepted := (applyMark_cases a mark nowNs maxAgeNs).resolve_left fun hno => hno.1 ha
  have hbaccepted := (applyMark_cases b mark nowNs maxAgeNs').resolve_left fun hno => hno.1 hb
  obtain ⟨value, hzero, hheld, hafter⟩ := haccepted.2.after_eq
  obtain ⟨value', hzero', hheld', hafter'⟩ := hbaccepted.2.after_eq
  rw [hafter, hafter']
  have hposition : a.position = b.position := congrArg State.position h
  have haverage : a.averagePrice = b.averagePrice := congrArg State.averagePrice h
  rw [hposition] at hzero hheld ⊢
  rw [haverage] at hheld
  have hvalue : value = value' := by
    by_cases hflat : b.position.raw = 0
    · rw [hzero hflat, hzero' hflat]
    · exact Option.some.inj ((hheld hflat).symm.trans (hheld' hflat))
  subst hvalue
  cases a
  cases b
  simp only [save, State.mk.injEq] at h
  obtain ⟨rfl, rfl, rfl, rfl, rfl, rfl, rfl, rfl⟩ := h
  rfl

/-- A mark that an account answers alike under two age limits leaves it the same. -/
theorem applyMark_eq_of_answer_eq {account : PositionAccount} {mark : MarkPrice}
    {nowNs maxAgeNs maxAgeNs' : Nanos}
    (h : (account.applyMark mark nowNs maxAgeNs).1 = (account.applyMark mark nowNs maxAgeNs').1) :
    (account.applyMark mark nowNs maxAgeNs).2 = (account.applyMark mark nowNs maxAgeNs').2 := by
  simp only [applyMark] at h ⊢
  split
  · rfl
  · rename_i husable
    rw [if_neg husable, if_neg husable] at h
    -- Under one limit stale and under the other not, the answers would differ.
    split_ifs at h ⊢
    all_goals first
      | rfl
      | (split at h <;> cases h)

end PositionAccount

namespace PortfolioAccountant

/-- The two cannot be told apart by what is saved of their accounts, and have the
same room. -/
structure Twins (x y : PortfolioAccountant) : Prop where
  capacity : x.config.maxSymbols = y.config.maxSymbols
  ledger : x.accounts.map PositionAccount.save = y.accounts.map PositionAccount.save

/-- In lists with one ledger, either both hold a symbol, with one ledger, or neither
does. -/
theorem find?_cases {accounts accounts' : List PositionAccount}
    (h : accounts.map PositionAccount.save = accounts'.map PositionAccount.save)
    (symbol : Symbol) :
    (accounts.find? (fun account => account.symbol = symbol) = none ∧
        accounts'.find? (fun account => account.symbol = symbol) = none) ∨
      ∃ a b, accounts.find? (fun account => account.symbol = symbol) = some a ∧
        accounts'.find? (fun account => account.symbol = symbol) = some b ∧ a.save = b.save := by
  have hfind : (accounts.find? fun account => account.symbol = symbol).map PositionAccount.save =
      (accounts'.find? fun account => account.symbol = symbol).map PositionAccount.save := by
    have hstates := congrArg (List.find? fun state => state.symbol = symbol) h
    rwa [List.find?_map, List.find?_map] at hstates
  cases hx : accounts.find? fun account => account.symbol = symbol with
  | none =>
      rw [hx, Option.map_none, eq_comm, Option.map_eq_none_iff] at hfind
      exact .inl ⟨rfl, hfind⟩
  | some a =>
      rw [hx, Option.map_some, eq_comm, Option.map_eq_some_iff] at hfind
      obtain ⟨b, hy, hsave⟩ := hfind
      exact .inr ⟨a, b, rfl, hy, hsave.symm⟩

theorem Twins.find_cases {x y : PortfolioAccountant} (h : Twins x y) (symbol : Symbol) :
    (x.find symbol = none ∧ y.find symbol = none) ∨
      ∃ a b, x.find symbol = some a ∧ y.find symbol = some b ∧ a.save = b.save :=
  find?_cases h.ledger symbol

/-- Twins report the same outcome of a fill. -/
theorem Twins.onFill_outcome {x y : PortfolioAccountant} (h : Twins x y) (fill : FillEvent) :
    (x.onFill fill).1 = (y.onFill fill).1 := by
  rcases h.find_cases fill.symbol with ⟨hx, hy⟩ | ⟨a, b, hx, hy, hsave⟩
  · simp only [onFill, hx, hy]
  · rw [(onFill_of_find hx).1, (onFill_of_find hy).1]
    exact (PositionAccount.applyFill_congr hsave fill.tradeId fill.side fill.price fill.quantity
      fill.fee).1

/-- Twins with one age limit give the same answer to a mark. -/
theorem Twins.onMark_answer {x y : PortfolioAccountant} (h : Twins x y)
    (hage : x.config.maxMarkAgeNs = y.config.maxMarkAgeNs) (mark : MarkPrice) (now : Nanos) :
    (x.onMark mark now).1 = (y.onMark mark now).1 := by
  rcases h.find_cases mark.symbol with ⟨hx, hy⟩ | ⟨a, b, hx, hy, hsave⟩
  · simp only [onMark, hx, hy]
  · simp only [onMark, hx, hy, hage]
    exact PositionAccount.applyMark_answer_congr hsave mark now _

theorem save_filled {a b : PositionAccount} (h : a.save = b.save) (fill : FillEvent) :
    (filled a fill).save = (filled b fill).save := by
  obtain ⟨houtcome, hsave⟩ := PositionAccount.applyFill_congr h fill.tradeId fill.side fill.price
    fill.quantity fill.fee
  simp only [filled, houtcome]
  split
  · rw [PositionAccount.save_fault, PositionAccount.save_fault, hsave]
  · exact hsave

theorem Twins.amend {x y x' y' : PortfolioAccountant} (h : Twins x y) {symbol : Symbol}
    {f g : PositionAccount → PositionAccount}
    (hx : x'.accounts = Keyed.amend PositionAccount.symbol symbol f x.accounts)
    (hy : y'.accounts = Keyed.amend PositionAccount.symbol symbol g y.accounts)
    (hxconfig : x'.config = x.config) (hyconfig : y'.config = y.config)
    (hfg : ∀ a b, a.save = b.save → (f a).save = (g b).save) : Twins x' y' where
  capacity := by rw [hxconfig, hyconfig, h.capacity]
  ledger := by
    rw [hx, hy]
    exact Keyed.map_amend_congr (fun a b hsave => congrArg PositionAccount.State.symbol hsave) hfg
      h.ledger

theorem Twins.length {x y : PortfolioAccountant} (h : Twins x y) :
    x.accounts.length = y.accounts.length := by
  have hlength := congrArg List.length h.ledger
  rwa [List.length_map, List.length_map] at hlength

/-- A symbol is registered by both, at the end of the accounts, or by neither. -/
theorem Twins.registerSymbol_cases {x y : PortfolioAccountant} (h : Twins x y) (symbol : Symbol) :
    ((x.registerSymbol symbol).2 = x ∧ (y.registerSymbol symbol).2 = y) ∨
      ((x.registerSymbol symbol).2.accounts = x.accounts ++ [{ symbol := symbol }] ∧
        (y.registerSymbol symbol).2.accounts = y.accounts ++ [{ symbol := symbol }]) := by
  have hknown : (x.find symbol).isSome = (y.find symbol).isSome := by
    rcases h.find_cases symbol with ⟨hx, hy⟩ | ⟨a, b, hx, hy, -⟩
    · rw [hx, hy]
    · rw [hx, hy]
      rfl
  simp only [registerSymbol, hknown, h.capacity, h.length]
  split
  · exact .inl ⟨rfl, rfl⟩
  split
  · exact .inl ⟨rfl, rfl⟩
  split
  · exact .inl ⟨rfl, rfl⟩
  · exact .inr ⟨rfl, rfl⟩

/-- A ledger is restored by both, and then they hold the same, or by neither. -/
theorem Twins.restore_cases {x y : PortfolioAccountant} (h : Twins x y) (state : RecoveryState) :
    ((x.restore state).2 = x ∧ (y.restore state).2 = y) ∨
      ((x.restore state).2.accounts = (y.restore state).2.accounts ∧
        (x.restore state).2.sequence = (y.restore state).2.sequence) := by
  have hheld : x.accounts.isEmpty = y.accounts.isEmpty := by
    have hempty := congrArg List.isEmpty h.ledger
    rwa [List.isEmpty_map, List.isEmpty_map] at hempty
  simp only [restore, hheld, h.capacity]
  split
  · exact .inl ⟨rfl, rfl⟩
  split
  · exact .inl ⟨rfl, rfl⟩
  split
  · exact .inl ⟨rfl, rfl⟩
  · exact .inr ⟨rfl, rfl⟩

/-- Twins stay twins. -/
theorem twins_step (op : Op) (x y : PortfolioAccountant) (h : Twins x y) :
    Twins (step op x) (step op y) := by
  have hxconfig := config_step op x
  have hyconfig := config_step op y
  have hcapacity : (step op x).config.maxSymbols = (step op y).config.maxSymbols := by
    rw [hxconfig, hyconfig, h.capacity]
  cases op with
  | registerSymbol symbol =>
      refine ⟨hcapacity, ?_⟩
      rcases h.registerSymbol_cases symbol with ⟨hx, hy⟩ | ⟨hx, hy⟩
      · rw [step, step, hx, hy]
        exact h.ledger
      · rw [step, step, hx, hy, List.map_append, List.map_append, h.ledger]
  | fill fill =>
      exact h.amend (accounts_onFill x fill) (accounts_onFill y fill) hxconfig hyconfig
        fun a b hsave => save_filled hsave fill
  | mark mark now =>
      refine h.amend (accounts_onMark x mark now) (accounts_onMark y mark now) hxconfig hyconfig ?_
      intro a b hsave
      rw [PositionAccount.save_applyMark, PositionAccount.save_applyMark, hsave]
  | balance update now =>
      refine ⟨hcapacity, ?_⟩
      rw [step, step, accounts_onBalance, accounts_onBalance]
      exact h.ledger
  | restore state =>
      refine ⟨hcapacity, ?_⟩
      rcases h.restore_cases state with ⟨hx, hy⟩ | ⟨haccounts, -⟩
      · rw [step, step, hx, hy]
        exact h.ledger
      · rw [step, step, haccounts]
  | clearFault symbol =>
      refine h.amend (accounts_clearFault x symbol) (accounts_clearFault y symbol) hxconfig
        hyconfig ?_
      intro a b hsave
      rw [PositionAccount.save_clearFault, PositionAccount.save_clearFault, hsave]

/-! ## Valuation -/

/-- The operation is a mark of the symbol that the accountant accepts. -/
def Marks (symbol : Symbol) (op : Op) (accountant : PortfolioAccountant) : Prop :=
  match op with
  | .mark mark now => mark.symbol = symbol ∧ (accountant.onMark mark now).1 = .none
  | _ => False

/-- If the operation is a mark of the symbol, the two give it the same answer. -/
def Alike (symbol : Symbol) (op : Op) (x y : PortfolioAccountant) : Prop :=
  match op with
  | .mark mark now => mark.symbol = symbol → (x.onMark mark now).1 = (y.onMark mark now).1
  | _ => True

theorem onMark_of_find {accountant : PortfolioAccountant} {mark : MarkPrice} {now : Nanos}
    {account : PositionAccount} (h : accountant.find mark.symbol = some account) :
    (accountant.onMark mark now).1 =
      (account.applyMark mark now accountant.config.maxMarkAgeNs).1 := by
  simp only [onMark, h]

theorem find_amend_self {accountant after : PortfolioAccountant} {symbol : Symbol}
    {f : PositionAccount → PositionAccount}
    (haccounts : after.accounts = Keyed.amend PositionAccount.symbol symbol f accountant.accounts)
    (hsymbol : ∀ account, (f account).symbol = account.symbol) :
    after.find symbol = (accountant.find symbol).map f := by
  rw [find, haccounts]
  exact Keyed.find?_amend_self hsymbol accountant.accounts

theorem find_amend_other {accountant after : PortfolioAccountant} {symbol other : Symbol}
    {f : PositionAccount → PositionAccount}
    (haccounts : after.accounts = Keyed.amend PositionAccount.symbol symbol f accountant.accounts)
    (hsymbol : ∀ account, (f account).symbol = account.symbol) (hother : other ≠ symbol) :
    after.find other = accountant.find other := by
  rw [find, haccounts]
  exact Keyed.find?_amend_other hsymbol hother accountant.accounts

theorem find_onMark (accountant : PortfolioAccountant) (mark : MarkPrice) (now : Nanos) :
    (accountant.onMark mark now).2.find mark.symbol =
      (accountant.find mark.symbol).map fun account =>
        (account.applyMark mark now accountant.config.maxMarkAgeNs).2 :=
  find_amend_self (accounts_onMark accountant mark now)
    fun account => (account.applyMark_identity mark now _).1

/-- A mark that both accept brings the account of its symbol level. -/
theorem Twins.find_eq_of_marks {x y : PortfolioAccountant} (h : Twins x y) {symbol : Symbol}
    {op : Op} (hx : Marks symbol op x) (hy : Marks symbol op y) :
    (step op x).find symbol = (step op y).find symbol := by
  cases op with
  | mark mark now =>
      obtain ⟨rfl, hx⟩ := hx
      replace hy := hy.2
      rw [step, step, find_onMark, find_onMark]
      rcases h.find_cases mark.symbol with ⟨hxfind, hyfind⟩ | ⟨a, b, hxfind, hyfind, hsave⟩
      · rw [hxfind, hyfind]
        rfl
      · rw [onMark_of_find hxfind] at hx
        rw [onMark_of_find hyfind] at hy
        rw [hxfind, hyfind, Option.map_some, Option.map_some,
          PositionAccount.applyMark_eq_of_accepted hsave hx hy]
  | registerSymbol _ => exact hx.elim
  | fill _ => exact hx.elim
  | balance _ _ => exact hx.elim
  | restore _ => exact hx.elim
  | clearFault _ => exact hx.elim

/-- A change of one account, made alike by both, keeps every account level. -/
theorem find_eq_amend {x y x' y' : PortfolioAccountant} {symbol other : Symbol}
    {f g : PositionAccount → PositionAccount} (h : x.find symbol = y.find symbol)
    (hx : x'.accounts = Keyed.amend PositionAccount.symbol other f x.accounts)
    (hy : y'.accounts = Keyed.amend PositionAccount.symbol other g y.accounts)
    (hf : ∀ account, (f account).symbol = account.symbol)
    (hg : ∀ account, (g account).symbol = account.symbol)
    (hfg : other = symbol → ∀ account, x.find symbol = some account → f account = g account) :
    x'.find symbol = y'.find symbol := by
  by_cases hother : symbol = other
  · subst hother
    rw [find_amend_self hx hf, find_amend_self hy hg, ← h]
    cases hfind : x.find symbol with
    | none => rfl
    | some account => rw [Option.map_some, Option.map_some, hfg rfl account hfind]
  · rw [find_amend_other hx hf hother, find_amend_other hy hg hother, h]

/-- An account that is level stays level, unless one mark of it is answered in two
ways. -/
theorem Twins.find_eq_step {x y : PortfolioAccountant} (h : Twins x y) {symbol : Symbol} {op : Op}
    (hfind : x.find symbol = y.find symbol) (halike : Alike symbol op x y) :
    (step op x).find symbol = (step op y).find symbol := by
  cases op with
  | registerSymbol other =>
      rcases h.registerSymbol_cases other with ⟨hx, hy⟩ | ⟨hx, hy⟩
      · rw [step, step, hx, hy, hfind]
      · rw [find, find] at hfind ⊢
        rw [step, step, hx, hy, List.find?_append, List.find?_append, hfind]
  | fill fill =>
      exact find_eq_amend hfind (accounts_onFill x fill) (accounts_onFill y fill)
        (filled_symbol · fill) (filled_symbol · fill) fun _ _ _ => rfl
  | mark mark now =>
      refine find_eq_amend hfind (accounts_onMark x mark now) (accounts_onMark y mark now)
        (fun account => (account.applyMark_identity mark now _).1)
        (fun account => (account.applyMark_identity mark now _).1) ?_
      rintro rfl account hx
      have hanswer := halike rfl
      rw [onMark_of_find hx, onMark_of_find (hfind ▸ hx)] at hanswer
      exact PositionAccount.applyMark_eq_of_answer_eq hanswer
  | balance update now =>
      rw [find, find, step, step, accounts_onBalance, accounts_onBalance]
      exact hfind
  | restore state =>
      rcases h.restore_cases state with ⟨hx, hy⟩ | ⟨haccounts, -⟩
      · rw [step, step, hx, hy, hfind]
      · rw [find, find, step, step, haccounts]
  | clearFault other =>
      exact find_eq_amend hfind (accounts_clearFault x other) (accounts_clearFault y other)
        (fun _ => rfl) (fun _ => rfl) fun _ _ _ => rfl

/-- The two answer every mark of the symbol alike. -/
def AnswerAlike (symbol : Symbol) : List Op → PortfolioAccountant → PortfolioAccountant → Prop
  | [], _, _ => True
  | op :: ops, x, y => Alike symbol op x y ∧ AnswerAlike symbol ops (step op x) (step op y)

/-- Some mark of the symbol is accepted by both, and the marks of it after that one
are answered alike. -/
def Remarked (symbol : Symbol) : List Op → PortfolioAccountant → PortfolioAccountant → Prop
  | [], _, _ => False
  | op :: ops, x, y =>
      (Marks symbol op x ∧ Marks symbol op y ∧ AnswerAlike symbol ops (step op x) (step op y)) ∨
        Remarked symbol ops (step op x) (step op y)

theorem Twins.find_eq_run {x y : PortfolioAccountant} (h : Twins x y) {symbol : Symbol}
    {ops : List Op} (hfind : x.find symbol = y.find symbol) (halike : AnswerAlike symbol ops x y) :
    (Machine.run step ops x).find symbol = (Machine.run step ops y).find symbol := by
  induction ops generalizing x y with
  | nil => exact hfind
  | cons op ops ih => exact ih (twins_step op x y h) (h.find_eq_step hfind halike.1) halike.2

theorem Twins.find_eq_of_remarked {x y : PortfolioAccountant} (h : Twins x y) {symbol : Symbol}
    {ops : List Op} (hmarked : Remarked symbol ops x y) :
    (Machine.run step ops x).find symbol = (Machine.run step ops y).find symbol := by
  induction ops generalizing x y with
  | nil => exact hmarked.elim
  | cons op ops ih =>
      have hnext := twins_step op x y h
      rcases hmarked with ⟨hx, hy, halike⟩ | hlater
      · exact hnext.find_eq_run (h.find_eq_of_marks hx hy) halike
      · exact ih hnext hlater

end PortfolioAccountant

end MmEngine.Portfolio
