import CosmosVote.Governance.Basic
import CosmosVote.Soroban.Run

/-!
# The stores of the frontend

The wallet store holds the connected wallet and its token balance (`connect`, `disconnect`,
`refreshBalance`), the proposal store the votes of a user (`loadVotesForUser`, `clearVotes`).
What they ask of the network is answered later, in any order, and possibly when another wallet is
connected, or none. An answer is stored without looking for whom it was asked.

* `fresh_step`: what a step must meet to leave nothing stale in the stores;
* `no_stale_data_iff`: so there is never anything stale in them exactly if every step meets it.
-/

namespace CosmosVote.Frontend

open Soroban

inductive WalletName
  | freighter
  | xBull
  deriving DecidableEq

/-- A token balance, with the wallet it was asked for. -/
structure TokenBalance where
  owner : String
  amount : ℤ
  deriving DecidableEq

/-- An entry of the map of votes: the vote on a proposal, with the wallet it was asked for. -/
structure UserVote where
  voter : String
  id : ℕ
  record : Governance.VoteRecord
  deriving DecidableEq

/-- A call of `loadVotesForUser` that waits: the wallet, and the proposals there were then. -/
structure VotesRequest where
  walletAddress : String
  proposals : List ℕ
  deriving DecidableEq

/-- The two stores, and the calls that wait for an answer. -/
structure Stores where
  walletAddress : Option String
  walletName : Option WalletName
  tokenBalance : Option TokenBalance
  showModal : Bool
  proposals : List ℕ
  votedMap : List UserVote
  /-- The calls of `connect` that wait for the wallet. -/
  connecting : List WalletName
  /-- The wallets whose balance has been asked for. -/
  balanceRequests : List String
  votesRequests : List VotesRequest
  /-- The wallet of the last call of `loadVotesForUser`, unless `clearVotes` has been called since. -/
  votesFor : Option String

/-- The stores at first. -/
def Stores.initial : Stores where
  walletAddress := none
  walletName := none
  tokenBalance := none
  showModal := false
  proposals := []
  votedMap := []
  connecting := []
  balanceRequests := []
  votesRequests := []
  votesFor := none

/-- What the governance contract answers for a wallet: a request may fail. -/
structure VotesAnswer where
  hasVoted : ℕ → Option Bool
  voteRecord : ℕ → Option (Option Governance.VoteRecord)

inductive UserEvent
  | openModal
  | closeModal
  | connect (wallet : WalletName)
  /-- The wallet answers a call of `connect`: with an address, without one, or with an error. -/
  | connected (k : ℕ) (address : Option (Option String))
  | disconnect
  | refreshBalance
  | balanceAnswered (k : ℕ) (amount : Option ℤ)
  | proposalsLoaded (proposals : List ℕ)
  | loadVotesForUser (walletAddress : String)
  | votesAnswered (k : ℕ) (answer : VotesAnswer)
  | clearVotes

namespace Stores

variable (s : Stores)

/-- `fetchTokenBalance(address)`, from the call to the answer. -/
def fetchTokenBalance (address : String) : Stores :=
  { s with balanceRequests := s.balanceRequests ++ [address] }

/-- `connect` once it has an address. -/
def setWallet (address : String) (wallet : WalletName) : Stores :=
  { s with walletAddress := some address, walletName := some wallet, showModal := false }.fetchTokenBalance
    address

def disconnect : Stores := { s with walletAddress := none, walletName := none, tokenBalance := none }

/-- No request is made if no wallet is connected; the empty address counts as none. -/
def refreshBalance : Stores :=
  match s.walletAddress with
  | some address => if address = "" then s else s.fetchTokenBalance address
  | none => s

def loadVotesForUser (walletAddress : String) : Stores :=
  { s with
    votesRequests := s.votesRequests ++ [⟨walletAddress, s.proposals⟩]
    votesFor := some walletAddress }

def clearVotes : Stores := { s with votedMap := [], votesFor := none }

end Stores

/-- The votes that `loadVotesForUser` finds: a failed request counts as no vote. -/
def VotesRequest.votes (r : VotesRequest) (answer : VotesAnswer) : List UserVote :=
  r.proposals.filterMap fun id =>
    if (answer.hasVoted id).getD false then
      ((answer.voteRecord id).getD none).map fun record => ⟨r.walletAddress, id, record⟩
    else none

/-- The stores after an event. An answer to no request is none. -/
def step (s : Stores) : UserEvent → Stores
  | .openModal => { s with showModal := true }
  | .closeModal => { s with showModal := false }
  | .connect wallet => { s with connecting := s.connecting ++ [wallet] }
  | .connected k address =>
    match s.connecting[k]? with
    | some wallet =>
      let s := { s with connecting := s.connecting.eraseIdx k }
      match address with
      | some (some address) => if address = "" then s else s.setWallet address wallet
      | _ => s
    | none => s
  | .disconnect => s.disconnect
  | .refreshBalance => s.refreshBalance
  | .balanceAnswered k amount =>
    match s.balanceRequests[k]? with
    | some owner =>
      { s with
        balanceRequests := s.balanceRequests.eraseIdx k
        tokenBalance := amount.map fun amount => ⟨owner, amount⟩ }
    | none => s
  | .proposalsLoaded proposals => { s with proposals }
  | .loadVotesForUser walletAddress => s.loadVotesForUser walletAddress
  | .votesAnswered k answer =>
    match s.votesRequests[k]? with
    | some r => { s with votesRequests := s.votesRequests.eraseIdx k, votedMap := r.votes answer }
    | none => s
  | .clearVotes => s.clearVotes

/-! ## Stale data -/

/-- Nothing in the stores is stale: the balance is one of the connected wallet, and the votes are those
    of the wallet they were loaded for last. -/
structure Fresh (s : Stores) : Prop where
  tokenBalance : ∀ b, s.tokenBalance = some b → s.walletAddress = some b.owner
  votedMap : ∀ v ∈ s.votedMap, s.votesFor = some v.voter

/-- Without a wallet, there is no balance. -/
theorem Fresh.no_balance {s : Stores} (h : Fresh s) (hwallet : s.walletAddress = none) :
    s.tokenBalance = none := by
  cases hbalance : s.tokenBalance with
  | none => rfl
  | some b =>
    have := h.tokenBalance b hbalance
    rw [hwallet] at this
    cases this

/-- What an event must meet to leave nothing stale. -/
def Timely (s : Stores) : UserEvent → Prop
  | .connected k address => ∀ wallet a b, s.connecting[k]? = some wallet → address = some (some a) → a ≠ "" →
      s.tokenBalance = some b → b.owner = a
  | .balanceAnswered k amount => ∀ owner, s.balanceRequests[k]? = some owner → amount.isSome →
      s.walletAddress = some owner
  | .loadVotesForUser walletAddress => s.votedMap ≠ [] → s.votesFor = some walletAddress
  | .votesAnswered k answer => ∀ r, s.votesRequests[k]? = some r → r.votes answer ≠ [] →
      s.votesFor = some r.walletAddress
  | _ => True

theorem VotesRequest.voter_eq {r : VotesRequest} {answer : VotesAnswer} {v : UserVote}
    (h : v ∈ r.votes answer) : v.voter = r.walletAddress := by
  obtain ⟨id, _, hv⟩ := List.mem_filterMap.1 h
  split at hv
  · obtain ⟨record, _, rfl⟩ := Option.map_eq_some_iff.1 hv
    rfl
  · cases hv

/-- A wallet is connected without clearing the balance of the one before. -/
theorem fresh_setWallet {s : Stores} (h : Fresh s) (address : String) (wallet : WalletName) :
    Fresh (s.setWallet address wallet) ↔ ∀ b, s.tokenBalance = some b → b.owner = address := by
  constructor
  · intro hs b hb
    exact (Option.some_inj.1 (hs.tokenBalance b hb)).symm
  · intro hs
    exact ⟨fun b hb => congrArg some (hs b hb).symm, h.votedMap⟩

section Events

variable {s : Stores} (h : Fresh s)
include h

theorem fresh_connected (k : ℕ) (address : Option (Option String)) :
    Fresh (step s (.connected k address)) ↔ Timely s (.connected k address) := by
  have hsame (ws : List WalletName) : Fresh { s with connecting := ws } := ⟨h.tokenBalance, h.votedMap⟩
  simp only [step, Timely]
  cases s.connecting[k]? with
  | none => exact iff_of_true h nofun
  | some wallet =>
    rcases address with _ | _ | a
    · exact iff_of_true (hsame _) nofun
    · exact iff_of_true (hsame _) nofun
    · dsimp only
      by_cases ha : a = ""
      · rw [if_pos ha]
        refine iff_of_true (hsame _) ?_
        rintro _ _ _ _ ⟨⟩ hne
        exact absurd ha hne
      · rw [if_neg ha, fresh_setWallet (hsame _)]
        refine ⟨?_, fun hall b hb => hall wallet a b rfl rfl ha hb⟩
        rintro hall _ _ b _ ⟨⟩ _ hb
        exact hall b hb

theorem fresh_balanceAnswered (k : ℕ) (amount : Option ℤ) :
    Fresh (step s (.balanceAnswered k amount)) ↔ Timely s (.balanceAnswered k amount) := by
  simp only [step, Timely]
  cases s.balanceRequests[k]? with
  | none => exact iff_of_true h nofun
  | some owner =>
    cases amount with
    | none => exact iff_of_true ⟨nofun, h.votedMap⟩ nofun
    | some amount =>
      constructor
      · rintro hs _ ⟨⟩ _
        exact hs.tokenBalance _ rfl
      · intro hall
        refine ⟨?_, h.votedMap⟩
        rintro _ ⟨⟩
        exact hall owner rfl rfl

theorem fresh_loadVotesForUser (walletAddress : String) :
    Fresh (step s (.loadVotesForUser walletAddress)) ↔ Timely s (.loadVotesForUser walletAddress) := by
  constructor
  · -- The votes that are there are both those of the last wallet and of this one.
    intro hs hne
    obtain ⟨v, hv⟩ := List.exists_mem_of_ne_nil _ hne
    rw [h.votedMap v hv]
    exact (hs.votedMap v hv).symm
  · intro hall
    refine ⟨h.tokenBalance, fun v hv => ?_⟩
    exact (hall (List.ne_nil_of_mem hv)).symm.trans (h.votedMap v hv)

theorem fresh_votesAnswered (k : ℕ) (answer : VotesAnswer) :
    Fresh (step s (.votesAnswered k answer)) ↔ Timely s (.votesAnswered k answer) := by
  simp only [step, Timely]
  cases s.votesRequests[k]? with
  | none => exact iff_of_true h nofun
  | some r =>
    constructor
    · rintro hs _ ⟨⟩ hne
      obtain ⟨v, hv⟩ := List.exists_mem_of_ne_nil _ hne
      rw [← VotesRequest.voter_eq hv]
      exact hs.votedMap v hv
    · intro hall
      refine ⟨h.tokenBalance, fun v hv => ?_⟩
      rw [VotesRequest.voter_eq hv]
      exact hall r rfl (List.ne_nil_of_mem hv)

/-- An event leaves nothing stale exactly if it is timely. -/
theorem fresh_step (e : UserEvent) : Fresh (step s e) ↔ Timely s e := by
  cases e with
  | openModal => exact iff_of_true ⟨h.tokenBalance, h.votedMap⟩ trivial
  | closeModal => exact iff_of_true ⟨h.tokenBalance, h.votedMap⟩ trivial
  | connect wallet => exact iff_of_true ⟨h.tokenBalance, h.votedMap⟩ trivial
  | connected k address => exact fresh_connected h k address
  | disconnect => exact iff_of_true ⟨nofun, h.votedMap⟩ trivial
  | refreshBalance =>
    refine iff_of_true ?_ trivial
    rw [step, Stores.refreshBalance]
    split
    · split
      · exact h
      · exact ⟨h.tokenBalance, h.votedMap⟩
    · exact h
  | balanceAnswered k amount => exact fresh_balanceAnswered h k amount
  | proposalsLoaded proposals => exact iff_of_true ⟨h.tokenBalance, h.votedMap⟩ trivial
  | loadVotesForUser walletAddress => exact fresh_loadVotesForUser h walletAddress
  | votesAnswered k answer => exact fresh_votesAnswered h k answer
  | clearVotes => exact iff_of_true ⟨h.tokenBalance, fun v hv => absurd hv List.not_mem_nil⟩ trivial

end Events

/-- Whatever the user does, and in whatever order the network answers, nothing in the stores is ever stale
    exactly if

    * a wallet is connected when there is no balance of another one;
    * a balance arrives when the wallet it was asked for is connected;
    * votes are loaded for a wallet when there are none, or when it is the last one they were loaded for;
    * votes arrive when the wallet they were asked for is the last one they were loaded for, and they have
      not been cleared since. -/
theorem no_stale_data_iff (es : List UserEvent) :
    (∀ zs, zs <+: es → Fresh (run step .initial zs)) ↔ Along step Timely .initial es :=
  states_iff_along (s := Stores.initial) (P := Fresh) (I := fun _ => True) (fun _ _ h => h)
    (fun _ e _ h => fresh_step h e) trivial ⟨fun _ hb => absurd hb nofun, fun _ hv => absurd hv List.not_mem_nil⟩

/-- The balance arrives after the wallet has been disconnected. -/
theorem stale_balance :
    let es : List UserEvent := [.connect .freighter, .connected 0 (some (some "GA")), .disconnect,
      .balanceAnswered 0 (some 100)]
    (run step .initial es).walletAddress = none ∧ (run step .initial es).tokenBalance = some ⟨"GA", 100⟩ ∧
      ¬∀ zs, zs <+: es → Fresh (run step .initial zs) := by
  refine ⟨by decide, by decide, fun h => ?_⟩
  exact absurd ((h _ (List.prefix_refl _)).no_balance (by decide)) (by decide)

end CosmosVote.Frontend
