import Molaris.Lib.Conversions

/-!
# Send, allowance and approval: the authz side of the bank precompile

`Contract.Send` routes a `MsgSend` of the coins it is given, wrapped in an authz `MsgExec` when
the caller is not the sender. `Contract.Allowance` turns the owner and the spender into the
address codec's strings, asks the authz querier for the grants of the one to the other for
`MsgSend`, keeps the send authorizations of those that have not expired (`GetGrantAsSendAuth`),
and returns the largest amount of the denom any of them allows (`getHighestAllowance`).
`Contract.Approve` routes a `MsgGrant` of such an authorization from the caller to the spender.

The loop of `getHighestAllowance` keeps a running maximum from zero, so its result is the least
upper bound of zero and the amounts `AmountOf` reads: `foldl_highest` says so for any starting
maximum. `AmountOf` finds its coin by binary search, which reads the coin of the denom on a
sorted spend limit but may read another on an unsorted one. The grant `Approve` builds never
expires and allows coins that are all positive, so `Allowance` reads back from it exactly what
`AmountOf` reads from the approved coins.
-/

namespace Molaris.Bank

open Lib

/-- `getHighestAllowance`: the highest amount of `coinDenom` the send authorizations allow. The
running maximum starts at zero and is only ever set to an amount, so its `nil` test never holds.
The error is the panic of `AmountOf`. -/
def getHighestAllowance (sendAuths : List SendAuthorization) (coinDenom : String) :
    Except String Int :=
  sendAuths.foldlM (fun max sendAuth => do
    let amount ← amountOf sendAuth.spendLimit coinDenom
    pure (if amount > max then amount else max)) 0

/-- `Contract.Allowance`. `stringFromEthAddress` is `cosmlib.StringFromEthAddress` with the
contract's address codec, `grants` what the authz querier answers for a granter, a grantee and
the message type of `SendAuthorization`, and `blocktime` the block time of the polar context. The
outer error is a panic, the inner one the error returned. -/
def Contract.allowance (stringFromEthAddress : Address → Except String String)
    (grants : String → String → Except String (List Grant)) (blocktime : Int)
    (ownerAddress spenderAddress : Address) (denom : String) :
    Except String (Except String Int) :=
  let sendAuths := do
    let owner ← stringFromEthAddress ownerAddress
    let spender ← stringFromEthAddress spenderAddress
    let res ← grants owner spender
    getGrantAsSendAuth res blocktime
  match sendAuths with
  | .error err => .ok (.error err)
  | .ok sendAuths => Except.ok <$> getHighestAllowance sendAuths denom

/-- `authztypes.MsgGrant`. -/
structure MsgGrant where
  granter : String
  grantee : String
  grant : Grant

/-- `Contract.Approve`, up to the message it routes: the `MsgGrant` from the caller to the spender
of a send authorization of the coins, allowing only the spender to receive, with no expiration.
`msgSender` is the caller the polar context reports. Packing the authorization, which cannot fail
for a `SendAuthorization`, and routing and running the message are left out. -/
def Contract.approve (stringFromEthAddress : Address → Except String String)
    (msgSender spenderAddress : Address) (coins : Option (List CosmosCoin)) :
    Except String (Except String MsgGrant) :=
  (extractCoinsFromInput coins).map fun amount => do
    let amount ← amount
    let caller ← stringFromEthAddress msgSender
    let spender ← stringFromEthAddress spenderAddress
    pure ⟨caller, spender, ⟨some ⟨amount, [spender]⟩, none⟩⟩

/-- The amount of `denom` a spend limit allows, as `AmountOf` reads it for a valid denom. -/
def limitOf (denom : String) (sendAuth : SendAuthorization) : Int :=
  ((Coins.find sendAuth.spendLimit denom).map Coin.amount).getD 0

/-- One step of the running maximum. -/
def raise (max amount : Int) : Int :=
  if amount > max then amount else max

/-- The running maximum from `start` is at least `start` and every amount, and is `start` or one
of the amounts. -/
theorem foldl_highest (amounts : List Int) (start : Int) :
    start ≤ amounts.foldl raise start ∧ (∀ amount ∈ amounts, amount ≤ amounts.foldl raise start) ∧
      (amounts.foldl raise start = start ∨ amounts.foldl raise start ∈ amounts) := by
  induction amounts generalizing start with
  | nil => simp
  | cons amount amounts induction =>
      obtain ⟨above, bounds, attained⟩ := induction (raise start amount)
      have raised : start ≤ raise start amount ∧ amount ≤ raise start amount := by
        unfold raise
        split_ifs <;> omega
      have picked : raise start amount = start ∨ raise start amount = amount := by
        unfold raise
        split_ifs <;> simp
      refine ⟨raised.1.trans above, ?_, ?_⟩
      · simpa [List.foldl_cons] using ⟨raised.2.trans above, bounds⟩
      · rw [List.foldl_cons]
        rcases attained with same | member
        · rw [same]
          rcases picked with kept | taken
          · exact .inl kept
          · exact .inr (by rw [taken]; exact List.mem_cons_self _ _)
        · exact .inr (List.mem_cons_of_mem _ member)

theorem getHighestAllowance_of_valid (sendAuths : List SendAuthorization) {denom : String}
    (valid : validateDenom denom = true) :
    getHighestAllowance sendAuths denom = .ok ((sendAuths.map (limitOf denom)).foldl raise 0) := by
  suffices ∀ start : Int, sendAuths.foldlM (fun max sendAuth => do
      let amount ← amountOf sendAuth.spendLimit denom
      pure (if amount > max then amount else max)) start =
        Except.ok ((sendAuths.map (limitOf denom)).foldl raise start) from this 0
  induction sendAuths with
  | nil => exact fun _ => rfl
  | cons sendAuth sendAuths induction =>
      intro start
      rw [List.foldlM_cons, List.map_cons, List.foldl_cons, ← induction]
      simp [amountOf, valid, limitOf, raise, bind, Except.bind, pure, Except.pure]

theorem getHighestAllowance_of_invalid (sendAuths : List SendAuthorization) {denom : String}
    (invalid : validateDenom denom = false) :
    getHighestAllowance sendAuths denom =
      if sendAuths.isEmpty then .ok 0 else .error "invalid denom" := by
  cases sendAuths with
  | nil => rfl
  | cons sendAuth sendAuths =>
      simp [getHighestAllowance, List.foldlM_cons, amountOf, invalid, bind, Except.bind]

section Query

variable {stringFromEthAddress : Address → Except String String}
  {grants : String → String → Except String (List Grant)} {ownerAddress spenderAddress : Address}
  {owner spender : String} {found : List Grant}

theorem Contract.allowance_of_answered (ownerString : stringFromEthAddress ownerAddress = .ok owner)
    (spenderString : stringFromEthAddress spenderAddress = .ok spender)
    (answered : grants owner spender = .ok found) (blocktime : Int) (denom : String) :
    Contract.allowance stringFromEthAddress grants blocktime ownerAddress spenderAddress denom =
      match getGrantAsSendAuth found blocktime with
      | .error err => .ok (.error err)
      | .ok sendAuths => Except.ok <$> getHighestAllowance sendAuths denom := by
  simp only [Contract.allowance, ownerString, spenderString, bind, Except.bind, answered]

/-- `Allowance` for every owner, spender and block time, once the codec has turned both addresses
into strings and the authz querier has answered its grants. Expired grants are ignored, whatever
their type. An unexpired grant that is not a send authorization makes it return
`ErrInvalidGrantType`. Otherwise it returns the highest amount of the denom that the unexpired
send authorizations allow, zero when there is none: the least upper bound of zero and those
amounts. An invalid denom instead makes `AmountOf` panic, as soon as there is one such
authorization. -/
theorem allowance_highest_unexpired_limit (ownerString : stringFromEthAddress ownerAddress = .ok owner)
    (spenderString : stringFromEthAddress spenderAddress = .ok spender)
    (answered : grants owner spender = .ok found) (blocktime : Int) (denom : String) :
    let allowance :=
      Contract.allowance stringFromEthAddress grants blocktime ownerAddress spenderAddress denom
    let live := found.filter fun grant => grant.expiration.all (blocktime < ·)
    let limits := (live.filterMap (·.authorization)).map (limitOf denom)
    ((∃ grant ∈ live, grant.authorization = none) → allowance = .ok (.error errInvalidGrantType)) ∧
      ((∀ grant ∈ live, grant.authorization.isSome) → validateDenom denom = false →
        limits ≠ [] → allowance = .error "invalid denom") ∧
      ((∀ grant ∈ live, grant.authorization.isSome) →
        (validateDenom denom = true ∨ limits = []) →
        ∃ highest, allowance = .ok (.ok highest) ∧
          0 ≤ highest ∧ (∀ limit ∈ limits, limit ≤ highest) ∧
          (highest = 0 ∨ highest ∈ limits)) := by
  intro allowance live limits
  have sendAuths := getGrantAsSendAuth_eq found blocktime
  have query : allowance = _ :=
    Contract.allowance_of_answered ownerString spenderString answered blocktime denom
  refine ⟨fun ⟨grant, member, other⟩ => ?_, fun kinds invalid nonempty => ?_,
    fun kinds readable => ?_⟩
  · have mixed : live.all (·.authorization.isSome) = false := by
      simpa [List.all_eq_true] using ⟨grant, member, by simp [other]⟩
    simp only [query, sendAuths, live, mixed] at *
    rfl
  · have all : live.all (·.authorization.isSome) = true := List.all_eq_true.mpr kinds
    have some : (live.filterMap (·.authorization)).isEmpty = false := by
      simpa [limits, List.isEmpty_iff] using nonempty
    simp only [query, sendAuths] at *
    rw [if_pos all]
    simp [getHighestAllowance_of_invalid _ invalid, some, Functor.map, Except.map]
  · have all : live.all (·.authorization.isSome) = true := List.all_eq_true.mpr kinds
    simp only [query, sendAuths] at *
    rw [if_pos all]
    rcases readable with valid | none
    · obtain ⟨above, bounds, attained⟩ := foldl_highest limits 0
      refine ⟨_, by simp [getHighestAllowance_of_valid _ valid, Functor.map, Except.map],
        above, bounds, attained⟩
    · have empty : live.filterMap (·.authorization) = [] := List.map_eq_nil_iff.mp none
      exact ⟨0, by rw [empty]; rfl, le_refl 0, by simp [none], .inl rfl⟩

theorem allowance_highest_unexpired_limit_cases :
    let alice := bytesToAddress [1]
    let bob := bytesToAddress [2]
    let carol := bytesToAddress [3]
    let codec : Address → Except String String := fun address =>
      .ok (if address = bob then "bob" else if address = carol then "carol" else "alice")
    let toBob : List Grant := [⟨some ⟨[⟨"umito", 9⟩], ["bob"]⟩, some 5⟩,
      ⟨some ⟨[⟨"umito", 5⟩], ["bob"]⟩, none⟩, ⟨some ⟨[⟨"umito", 7⟩], ["bob"]⟩, some 20⟩]
    let querier : String → String → Except String (List Grant) := fun _ grantee =>
      .ok (if grantee = "bob" then toBob else [⟨none, none⟩])
    Contract.allowance codec querier 10 alice bob "umito" = .ok (.ok 7) ∧
      Contract.allowance codec querier 10 alice bob "a" = .error "invalid denom" ∧
      Contract.allowance codec querier 10 alice carol "umito" = .ok (.error errInvalidGrantType) := by
  intro alice bob carol codec toBob querier
  have owner : codec alice = .ok "alice" := by
    dsimp only [codec]
    rw [if_neg (by decide), if_neg (by decide)]
  have spender : codec bob = .ok "bob" := by
    dsimp only [codec]
    rw [if_pos rfl]
  have other : codec carol = .ok "carol" := by
    dsimp only [codec]
    rw [if_neg (by decide), if_pos rfl]
  have toSpender : querier "alice" "bob" = .ok toBob := rfl
  have toOther : querier "alice" "carol" = .ok [⟨none, none⟩] := rfl
  have kinds : ∀ grant ∈ toBob.filter (fun grant => grant.expiration.all ((10 : Int) < ·)),
      grant.authorization.isSome := by decide
  have limits : ((toBob.filter fun grant => grant.expiration.all ((10 : Int) < ·)).filterMap
      (·.authorization)).map (limitOf "umito") = [5, 7] := by
    simp [toBob, limitOf, Coins.find]
  obtain ⟨highest, allowed, -, bounds, attained⟩ :=
    (allowance_highest_unexpired_limit owner spender toSpender 10 "umito").2.2 kinds
      (.inl (by decide))
  rw [limits] at bounds attained
  have seven : highest = 7 := by
    have atLeast := bounds 7 (by simp)
    simp only [List.mem_cons, List.mem_singleton, List.not_mem_nil, or_false] at attained
    omega
  exact ⟨seven ▸ allowed,
    (allowance_highest_unexpired_limit owner spender toSpender 10 "a").2.1 kinds (by decide)
      (by decide),
    (allowance_highest_unexpired_limit owner other toOther 10 "umito").1
      ⟨⟨none, none⟩, List.mem_filter.mpr ⟨List.mem_singleton_self _, rfl⟩, rfl⟩⟩

end Query

section Approve

variable {stringFromEthAddress : Address → Except String String}
  {grants : String → String → Except String (List Grant)} {msgSender spenderAddress : Address}
  {coins : Option (List CosmosCoin)} {msg : MsgGrant}

theorem Contract.approve_eq_ok
    (approved : Contract.approve stringFromEthAddress msgSender spenderAddress coins = .ok (.ok msg)) :
    ∃ amount, extractCoinsFromInput coins = .ok (.ok amount) ∧
      stringFromEthAddress msgSender = .ok msg.granter ∧
      stringFromEthAddress spenderAddress = .ok msg.grantee ∧
      msg.grant = ⟨some ⟨amount, [msg.grantee]⟩, none⟩ := by
  unfold Contract.approve at approved
  rcases extracted : extractCoinsFromInput coins with _ | _ | amount <;>
    rw [extracted] at approved
  · cases approved
  · cases approved
  rcases caller : stringFromEthAddress msgSender with _ | caller <;>
    rcases spender : stringFromEthAddress spenderAddress with _ | spender <;>
    simp only [caller, spender, Except.map, bind, Except.bind, pure, Except.pure,
      Except.ok.injEq, reduceCtorEq] at approved
  subst approved
  exact ⟨amount, rfl, rfl, rfl, rfl⟩

theorem getHighestAllowance_singleton {sendAuth : SendAuthorization} (denom : String)
    (nonneg : ∀ coin ∈ sendAuth.spendLimit, 0 ≤ coin.amount) :
    getHighestAllowance [sendAuth] denom = amountOf sendAuth.spendLimit denom := by
  by_cases valid : validateDenom denom = true
  · have limit : 0 ≤ limitOf denom sendAuth := by
      unfold limitOf
      cases found : Coins.find sendAuth.spendLimit denom with
      | none => exact le_refl 0
      | some coin => exact nonneg coin (Coins.find_mem found).1
    have kept : raise 0 (limitOf denom sendAuth) = limitOf denom sendAuth := by
      unfold raise
      split_ifs <;> omega
    rw [getHighestAllowance_of_valid _ valid, amountOf, if_pos valid]
    exact congrArg Except.ok kept
  · rw [getHighestAllowance_of_invalid _ (Bool.eq_false_iff.mpr valid), amountOf, if_neg valid]
    rfl

/-- `Allowance` reads back what `Approve` grants. When `Approve` routes a `MsgGrant` and the authz
querier answers that grant for its granter and grantee, `Allowance` of the caller to the spender
returns, at every block time, the approved amount of the denom, zero for a denom not approved,
and panics in `AmountOf` on an invalid denom: the grant never expires, and the coins
`ExtractCoinsFromInput` returned, which it allows, are positive. -/
theorem allowance_reads_back_approve
    (approved : Contract.approve stringFromEthAddress msgSender spenderAddress coins = .ok (.ok msg))
    (answered : grants msg.granter msg.grantee = .ok [msg.grant]) (blocktime : Int)
    (denom : String) :
    ∃ amount, extractCoinsFromInput coins = .ok (.ok amount) ∧
      Contract.allowance stringFromEthAddress grants blocktime msgSender spenderAddress denom =
        Except.ok <$> amountOf amount denom := by
  obtain ⟨amount, extracted, caller, spender, grant⟩ := Contract.approve_eq_ok approved
  have positive := ((validateCoins_iff amount).mp
    (validateCoins_of_extractCoinsFromInput extracted)).1
  refine ⟨amount, extracted, ?_⟩
  rw [Contract.allowance_of_answered caller spender answered, grant]
  show Except.ok <$> getHighestAllowance [⟨amount, [msg.grantee]⟩] denom = _
  rw [getHighestAllowance_singleton denom fun coin member => (positive coin member).2.le]

theorem allowance_reads_back_approve_umito :
    let codec : Address → Except String String := fun _ => .ok "mito"
    let msg : MsgGrant := ⟨"mito", "mito", ⟨some ⟨[⟨"umito", 5⟩], ["mito"]⟩, none⟩⟩
    let querier : String → String → Except String (List Grant) := fun _ _ => .ok [msg.grant]
    (Contract.approve codec (bytesToAddress [1]) (bytesToAddress [2]) (some [⟨5, "umito"⟩]) =
        .ok (.ok msg) ∧ querier msg.granter msg.grantee = .ok [msg.grant]) ∧
      ∃ amount, extractCoinsFromInput (some [⟨5, "umito"⟩]) = .ok (.ok amount) ∧
        Contract.allowance codec querier 7 (bytesToAddress [1]) (bytesToAddress [2]) "umito" =
          Except.ok <$> amountOf amount "umito" := by
  intro codec msg querier
  have extracted : extractCoinsFromInput (some [⟨5, "umito"⟩]) = .ok (.ok [⟨"umito", 5⟩]) := by
    rw [extractCoinsFromInput_eq _ (by simp [IsUint256]), if_pos (by decide), if_neg (by decide)]
    rfl
  have approved : Contract.approve codec (bytesToAddress [1]) (bytesToAddress [2])
      (some [⟨5, "umito"⟩]) = .ok (.ok msg) := by
    rw [Contract.approve, extracted]
    rfl
  exact ⟨⟨approved, rfl⟩, allowance_reads_back_approve approved rfl 7 "umito"⟩

end Approve

end Molaris.Bank
