/-
# What the portfolio adds up to

The portfolio's numbers are folded over the accounts with checked additions, and the
fold goes on after one that fails. What makes the result usable is a flag that only ever
falls: while it stands, no account was skipped in any total, because an account whose
absolute value was added has a signed value that can be added too.
-/

import MmEngine.Portfolio.PortfolioAccountant
import MmEngine.Portfolio.Ledger

namespace MmEngine.Portfolio

namespace PositionAccount

/-- Signed value of the open position at its valuation price, without bound. -/
def value (account : PositionAccount) : Int :=
  (account.position.raw * account.valuationPrice.raw).tdiv Fixed.kScale

/-- Absolute value of the open position at its valuation price, without bound. -/
def grossValue (account : PositionAccount) : Int :=
  (|account.position.raw| * account.valuationPrice.raw).tdiv Fixed.kScale

/-- A position is worth what it is worth gross, up to its sign. -/
theorem value_eq_or (account : PositionAccount) :
    account.value = account.grossValue ∨ account.value = -account.grossValue := by
  rcases abs_choice account.position.raw with h | h
  · exact .inl (by rw [value, grossValue, h])
  · exact .inr (by rw [value, grossValue, h, Int.neg_mul, Int.neg_tdiv, neg_neg])

/-- A gross exposure that can be computed is the exact one, and is not negative. -/
theorem grossValue_of_checked {account : PositionAccount} (hmin : account.position.raw ≠ rawMin)
    {gross : Notional} (h : account.checkedGrossExposure = some gross) :
    gross.raw = account.grossValue ∧ 0 ≤ account.grossValue := by
  rw [checkedGrossExposure] at h
  split at h
  · rename_i hflat
    rw [Fixed.isZero_iff] at hflat
    cases h
    simp [grossValue, hflat]
  rename_i hheld
  split at h
  · cases h
  rename_i hprice
  rw [Bool.not_eq_true', Bool.not_eq_false, Fixed.isPositive_iff] at hprice
  rw [checkedNotionalOf, Fixed.fromRaw?_eq_some_iff, Fixed.saturatingAbs_raw hmin, mul_comm] at h
  exact ⟨h, Int.tdiv_nonneg (mul_nonneg (abs_nonneg _) hprice.le) (by decide)⟩

/-- With a gross exposure that can be computed, so can the signed one. -/
theorem checked_value {account : PositionAccount} (hmin : account.position.raw ≠ rawMin)
    {gross : Notional} (h : account.checkedGrossExposure = some gross) :
    ∃ signed : Notional, checkedNotionalOf account.valuationPrice account.position = some signed ∧
      signed.raw = account.value := by
  obtain ⟨hgross, hnonneg⟩ := grossValue_of_checked hmin h
  have hle := gross.raw_le
  have hlo : rawMin ≤ account.value := by
    rcases account.value_eq_or with hvalue | hvalue <;> simp only [rawMin, rawMax] at * <;> omega
  have hhi : account.value ≤ rawMax := by
    rcases account.value_eq_or with hvalue | hvalue <;> simp only [rawMax] at * <;> omega
  refine ⟨⟨account.value, hlo, hhi⟩, ?_, rfl⟩
  rw [checkedNotionalOf, Fixed.fromRaw?_eq_some_iff, mul_comm]
  rfl

end PositionAccount

namespace PortfolioSnapshot

/-- A stretch of accounts was added to a snapshot and left it valid: none of them was
faulted, and every total has grown by exactly what they hold. -/
structure Sums (before : PortfolioSnapshot) (accounts : List PositionAccount)
    (after : PortfolioSnapshot) : Prop where
  valid : before.valid = true
  faultless : ∀ account ∈ accounts, account.faulted = false
  gross : after.grossNotional.raw =
    before.grossNotional.raw + (accounts.map PositionAccount.grossValue).sum
  net : after.netNotional.raw = before.netNotional.raw + (accounts.map PositionAccount.value).sum
  net_le_gross : |(accounts.map PositionAccount.value).sum| ≤
    (accounts.map PositionAccount.grossValue).sum
  realized : after.realized.raw =
    before.realized.raw + (accounts.map fun account => account.realized.raw).sum
  fees : after.fees.raw = before.fees.raw + (accounts.map fun account => account.fees.raw).sum
  unrealized : after.pnlDeterminate = true → before.pnlDeterminate = true ∧
    after.unrealized.raw =
      before.unrealized.raw + (accounts.map fun account => account.unrealized.raw).sum
  funding : after.funding = before.funding

theorem Sums.nil {snapshot : PortfolioSnapshot} (hvalid : snapshot.valid = true) :
    Sums snapshot [] snapshot where
  valid := hvalid
  faultless account haccount := by cases haccount
  gross := by simp
  net := by simp
  net_le_gross := by simp
  realized := by simp
  fees := by simp
  unrealized h := ⟨h, by simp⟩
  funding := rfl

theorem Sums.append {first second third : PortfolioSnapshot} {accounts more : List PositionAccount}
    (h : Sums first accounts second) (h' : Sums second more third) :
    Sums first (accounts ++ more) third where
  valid := h.valid
  faultless account haccount := by
    rcases List.mem_append.mp haccount with hold | hnew
    · exact h.faultless account hold
    · exact h'.faultless account hnew
  gross := by rw [h'.gross, h.gross, List.map_append, List.sum_append, Int.add_assoc]
  net := by rw [h'.net, h.net, List.map_append, List.sum_append, Int.add_assoc]
  net_le_gross := by
    simp only [List.map_append, List.sum_append]
    exact (abs_add_le _ _).trans (Int.add_le_add h.net_le_gross h'.net_le_gross)
  realized := by rw [h'.realized, h.realized, List.map_append, List.sum_append, Int.add_assoc]
  fees := by rw [h'.fees, h.fees, List.map_append, List.sum_append, Int.add_assoc]
  unrealized hdeterminate := by
    obtain ⟨hmiddle, hthird⟩ := h'.unrealized hdeterminate
    obtain ⟨hfirst, hsecond⟩ := h.unrealized hmiddle
    exact ⟨hfirst, by rw [hthird, hsecond, List.map_append, List.sum_append, Int.add_assoc]⟩
  funding := h'.funding.trans h.funding

/-- Adding the signed value of a position that has one changes the net total alone. -/
theorem addNet_eq {snapshot : PortfolioSnapshot} {account : PositionAccount} {signed : Notional}
    (hsigned : checkedNotionalOf account.valuationPrice account.position = some signed)
    (hvalid : (snapshot.addNet account).valid = true) :
    ∃ net : Notional, net.raw = snapshot.netNotional.raw + signed.raw ∧
      snapshot.addNet account = { snapshot with netNotional := net } := by
  simp only [addNet, hsigned] at hvalid ⊢
  cases hadd : Fixed.checkedAdd snapshot.netNotional signed with
  | none =>
      rw [hadd] at hvalid
      cases hvalid
  | some net => exact ⟨net, Fixed.checkedAdd_eq_some_iff.mp hadd, rfl⟩

/-- Adding profit and loss changes their totals alone, and cannot make a portfolio's
determinate again. -/
theorem addPnl_eq {snapshot : PortfolioSnapshot} {pnl : PnlBreakdown}
    (hvalid : (snapshot.addPnl pnl).valid = true) :
    ∃ (realized fees unrealized : Notional) (determinate : Bool),
      realized.raw = snapshot.realized.raw + pnl.realized.raw ∧
        fees.raw = snapshot.fees.raw + pnl.fees.raw ∧
        (determinate = true → snapshot.pnlDeterminate = true ∧
          unrealized.raw = snapshot.unrealized.raw + pnl.unrealized.raw) ∧
        snapshot.addPnl pnl =
          { snapshot with
            realized := realized
            fees := fees
            unrealized := unrealized
            pnlDeterminate := determinate } := by
  simp only [addPnl] at hvalid ⊢
  cases hrealized : Fixed.checkedAdd snapshot.realized pnl.realized with
  | none =>
      rw [hrealized] at hvalid
      cases hvalid
  | some realized =>
      simp only [hrealized] at hvalid ⊢
      rw [Fixed.checkedAdd_eq_some_iff] at hrealized
      cases hfees : Fixed.checkedAdd snapshot.fees pnl.fees with
      | none =>
          rw [hfees] at hvalid
          cases hvalid
      | some fees =>
          simp only [hfees] at hvalid ⊢
          rw [Fixed.checkedAdd_eq_some_iff] at hfees
          split
          · exact ⟨realized, fees, snapshot.unrealized, false, hrealized, hfees,
              fun h => absurd h Bool.false_ne_true, rfl⟩
          · rename_i hmarked
            rw [if_neg hmarked] at hvalid
            cases hunrealized : Fixed.checkedAdd snapshot.unrealized pnl.unrealized with
            | none =>
                rw [hunrealized] at hvalid
                cases hvalid
            | some unrealized =>
                exact ⟨realized, fees, unrealized, snapshot.pnlDeterminate, hrealized, hfees,
                  fun h => ⟨h, Fixed.checkedAdd_eq_some_iff.mp hunrealized⟩, rfl⟩

/-- One iteration of the aggregation that leaves the snapshot valid. -/
theorem addAccount_sums {snapshot : PortfolioSnapshot} {account : PositionAccount}
    (hmin : account.position.raw ≠ rawMin) (hvalid : (snapshot.addAccount account).valid = true) :
    Sums snapshot [account] (snapshot.addAccount account) := by
  rw [addAccount] at hvalid ⊢
  split at hvalid
  · cases hvalid
  rename_i hfaulted
  rw [if_neg hfaulted]
  -- Counting the symbols that hold a position leaves the totals alone.
  generalize hcounted : (if account.isFlat = true then snapshot
    else { snapshot with symbolsWithPosition := snapshot.symbolsWithPosition + 1 }) = counted
    at hvalid ⊢
  have hkept : counted.valid = snapshot.valid ∧
      counted.pnlDeterminate = snapshot.pnlDeterminate ∧
      counted.grossNotional = snapshot.grossNotional ∧
      counted.netNotional = snapshot.netNotional ∧ counted.realized = snapshot.realized ∧
      counted.unrealized = snapshot.unrealized ∧ counted.fees = snapshot.fees ∧
      counted.funding = snapshot.funding := by
    rw [← hcounted]
    split <;> exact ⟨rfl, rfl, rfl, rfl, rfl, rfl, rfl, rfl⟩
  obtain ⟨hkeptValid, hdeterminate, hgross, hnet, hrealized, hunrealized, hfees, hfunding⟩ := hkept
  cases hexposure : account.checkedGrossExposure with
  | none =>
      rw [hexposure] at hvalid
      cases hvalid
  | some gross =>
      obtain ⟨hgrossValue, hnonneg⟩ := PositionAccount.grossValue_of_checked hmin hexposure
      obtain ⟨signed, hsigned, hsignedValue⟩ := PositionAccount.checked_value hmin hexposure
      have habs : gross.saturatingAbs.raw = account.grossValue := by
        rw [Fixed.saturatingAbs_raw (by simp only [rawMin]; omega), abs_of_nonneg (by omega),
          hgrossValue]
      simp only [hexposure] at hvalid ⊢
      cases htotal : Fixed.checkedAdd counted.grossNotional gross.saturatingAbs with
      | none =>
          rw [htotal] at hvalid
          cases hvalid
      | some total =>
          simp only [htotal] at hvalid ⊢
          rw [Fixed.checkedAdd_eq_some_iff, habs, hgross] at htotal
          obtain ⟨realized, fees, unrealized, determinate, hrealized', hfees', hdeterminate',
            hpnl⟩ := addPnl_eq hvalid
          rw [hpnl] at hvalid ⊢
          obtain ⟨net, hnet', hafter⟩ := addNet_eq hsigned hvalid
          rw [hafter] at hvalid hrealized' hfees' hdeterminate' ⊢
          exact
            { valid := hkeptValid ▸ hvalid
              faultless := by simpa using hfaulted
              gross := by simpa using htotal
              net := by simpa [hsignedValue, hnet] using hnet'
              net_le_gross := by
                rcases account.value_eq_or with hvalue | hvalue <;>
                  simp [hvalue, abs_of_nonneg hnonneg]
              realized := by simpa [PositionAccount.pnl, hrealized] using hrealized'
              fees := by simpa [PositionAccount.pnl, hfees] using hfees'
              unrealized := by
                simpa [PositionAccount.pnl, hdeterminate, hunrealized] using hdeterminate'
              funding := hfunding }

/-- The aggregation over any accounts without the least position. -/
theorem foldl_addAccount_sums {accounts : List PositionAccount}
    (hmin : ∀ account ∈ accounts, account.position.raw ≠ rawMin) {snapshot : PortfolioSnapshot}
    (hvalid : (accounts.foldl addAccount snapshot).valid = true) :
    Sums snapshot accounts (accounts.foldl addAccount snapshot) := by
  induction accounts generalizing snapshot with
  | nil => exact .nil hvalid
  | cons account accounts ih =>
      rw [List.forall_mem_cons] at hmin
      have hrest := ih hmin.2 hvalid
      exact (addAccount_sums hmin.1 hrest.valid).append hrest

/-- A snapshot that is valid once it is closed has its totals and their net result. -/
theorem close_eq {snapshot : PortfolioSnapshot} (hvalid : snapshot.close.valid = true) :
    snapshot.valid = true ∧ ∃ netPnl : Notional,
      netPnl.raw = snapshot.realized.raw + snapshot.unrealized.raw + snapshot.funding.raw -
        snapshot.fees.raw ∧
      snapshot.close = { snapshot with netPnl := netPnl } := by
  rw [close] at hvalid ⊢
  cases htotal : PnlBreakdown.checkedNet
      { realized := snapshot.realized
        unrealized := snapshot.unrealized
        fees := snapshot.fees
        funding := snapshot.funding } with
  | none =>
      rw [htotal] at hvalid
      cases hvalid
  | some netPnl =>
      rw [htotal] at hvalid
      refine ⟨hvalid, netPnl, ?_, rfl⟩
      simp only [PnlBreakdown.checkedNet, Option.bind_eq_bind, Option.bind_eq_some_iff,
        Fixed.checkedAdd_eq_some_iff, Fixed.checkedSub_eq_some_iff] at htotal
      obtain ⟨gross, hgross, total, hfunding, hnet⟩ := htotal
      rw [hnet, hfunding, hgross]

end PortfolioSnapshot

namespace PortfolioAccountant

/-- The numbers are those of the accounts: no fault among them, every total exact, and
the profit and loss too where it is determinate. -/
structure Aggregated (accounts : List PositionAccount) (snapshot : PortfolioSnapshot) : Prop where
  faultless : ∀ account ∈ accounts, account.faulted = false
  gross : snapshot.grossNotional.raw = (accounts.map PositionAccount.grossValue).sum
  net : snapshot.netNotional.raw = (accounts.map PositionAccount.value).sum
  net_le_gross : |snapshot.netNotional.raw| ≤ snapshot.grossNotional.raw
  realized : snapshot.realized.raw = (accounts.map fun account => account.realized.raw).sum
  fees : snapshot.fees.raw = (accounts.map fun account => account.fees.raw).sum
  unrealized : snapshot.pnlDeterminate = true →
    snapshot.unrealized.raw = (accounts.map fun account => account.unrealized.raw).sum
  netPnl : snapshot.pnlDeterminate = true →
    snapshot.netPnl.raw = snapshot.realized.raw + snapshot.unrealized.raw - snapshot.fees.raw

/-- A portfolio that calls itself valid adds up to its accounts, whatever they are, as
long as they satisfy the ledger invariant. -/
theorem portfolioSnapshot_aggregated (accountant : PortfolioAccountant)
    (hsound : ∀ account ∈ accountant.accounts, account.Sound) (now : Nanos)
    (hvalid : (accountant.portfolioSnapshot now).valid = true) :
    Aggregated accountant.accounts (accountant.portfolioSnapshot now) := by
  rw [portfolioSnapshot] at hvalid ⊢
  obtain ⟨hfolded, netPnl, hnet, hclosed⟩ := PortfolioSnapshot.close_eq hvalid
  have hsums := PortfolioSnapshot.foldl_addAccount_sums
    (fun account haccount => (hsound account haccount).position_ne_min) hfolded
  rw [hclosed]
  exact
    { faultless := hsums.faultless
      gross := by simpa using hsums.gross
      net := by simpa using hsums.net
      net_le_gross := by
        have hle := hsums.net_le_gross
        rw [hsums.net, hsums.gross]
        simpa using hle
      realized := by simpa using hsums.realized
      fees := by simpa using hsums.fees
      unrealized := fun h => by simpa using (hsums.unrealized h).2
      netPnl := fun _ => by
        rw [hnet, hsums.funding]
        simp }

/-- Two units bought at ten and marked at twelve, and one unit of another symbol sold
at five, not marked. -/
def longAndShort : PortfolioAccountant :=
  { new {} with
    accounts :=
      [{ symbol := (InlineString.assign "LONG".toList).1
         position := .narrow 200000000
         averagePrice := .narrow 1000000000
         unrealized := .narrow 400000000
         lastMark := .narrow 1200000000 },
       { symbol := (InlineString.assign "SHORT".toList).1
         position := .narrow (-100000000)
         averagePrice := .narrow 500000000
         unrealizedValid := false }] }

/-- Together they are worth twenty-nine gross and nineteen net. -/
theorem portfolioSnapshot_aggregated_sample :
    (longAndShort.portfolioSnapshot 7).grossNotional.raw = 2900000000 ∧
      (longAndShort.portfolioSnapshot 7).netNotional.raw = 1900000000 := by
  have hsound : ∀ account ∈ longAndShort.accounts, account.Sound := by
    intro account haccount
    rcases List.mem_pair.mp haccount with rfl | rfl <;>
      exact ⟨by decide, by decide, by decide, by decide, by decide, by decide⟩
  have h := portfolioSnapshot_aggregated longAndShort hsound 7 (by decide +kernel)
  exact ⟨h.gross.trans (by decide +kernel), h.net.trans (by decide +kernel)⟩

end PortfolioAccountant

end MmEngine.Portfolio
