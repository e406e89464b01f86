import Mathlib.Data.List.Nodup
import Mathlib.Data.List.Perm.Basic
import CosmosVote.Concurrent.Shared

/-!
# The subscription store

The subscribers of the notification service and the cursor of its watcher are kept in one file. Each
operation loads the whole file and saves it again; the watcher and the processes of the command
line do so without regard to each other.

* `Orderly`: in a list of operations, every subscriber is added under an id that is new;
* `performed`: what the operations of such a list leave in the store, one after another;
* `no_lost_update`: if every save is current, what has been completed in any interleaving is in the
  file.
-/

namespace CosmosVote.Notifications

open Soroban Concurrent

/-! ## The store -/

inductive GovernanceEventType
  | created
  | voted
  | final
  | exec
  | cancel
  deriving DecidableEq

/-- The second topic of the events of the type. -/
def GovernanceEventType.name : GovernanceEventType → String
  | .created => "created"
  | .voted => "voted"
  | .final => "final"
  | .exec => "exec"
  | .cancel => "cancel"

/-- The id of a record of Horizon: its ledger, and its place in it. -/
structure RecordId where
  ledger : ℕ
  index : ℕ
  deriving DecidableEq

/-- The paging token that is kept: `'now'`, or the id of a record. -/
inductive Cursor
  | now
  | after (id : RecordId)
  deriving DecidableEq

structure Subscriber where
  id : String
  proposalId : Option String
  /-- The names of the types, as they were given: some may be none. -/
  events : List String
  email : Option String
  webhookUrl : Option String
  slackWebhookUrl : Option String
  discordWebhookUrl : Option String
  deriving DecidableEq

structure SubscriptionStore where
  subscribers : List Subscriber
  cursor : Cursor
  deriving DecidableEq

/-- The subscriptions file. -/
inductive File
  | missing
  /-- It has a content that does not parse. -/
  | damaged
  | stored (store : SubscriptionStore)
  deriving DecidableEq

/-- What reading and parsing the file gives. -/
def File.read : File → Option SubscriptionStore
  | .missing => none
  | .damaged => none
  | .stored store => some store

/-- An error in reading or parsing counts as an empty store. -/
def load (read : Option SubscriptionStore) : SubscriptionStore := read.getD ⟨[], .now⟩

/-- A string that is neither undefined nor empty. -/
def given (s : Option String) : Bool := s.any fun s => s ≠ ""

/-- There is a channel to reach the subscriber. -/
def Subscriber.hasChannel (sub : Subscriber) : Bool :=
  given sub.email || given sub.webhookUrl || given sub.slackWebhookUrl || given sub.discordWebhookUrl

namespace SubscriptionStore

variable (s : SubscriptionStore)

def saveCursor (cursor : Cursor) : SubscriptionStore := { s with cursor }

/-- It throws if there is no channel. -/
def addSubscriber (sub : Subscriber) : Option SubscriptionStore :=
  if sub.hasChannel then some { s with subscribers := s.subscribers ++ [sub] } else none

/-- Nothing is saved if there is no such subscriber; the result says which is the case. -/
def removeSubscriber (id : String) : Option SubscriptionStore :=
  let rest := s.subscribers.filter fun sub => sub.id ≠ id
  if rest.length = s.subscribers.length then none else some { s with subscribers := rest }

/-- The subscribers to notify of an event. -/
def matchingSubscribers (eventType : GovernanceEventType) (proposalId : Option String) : List Subscriber :=
  s.subscribers.filter fun sub =>
    sub.events.contains eventType.name ∧ ¬(given sub.proposalId ∧ sub.proposalId ≠ proposalId)

end SubscriptionStore

/-- The operations that save the store. -/
inductive StoreOp
  | saveCursor (cursor : Cursor)
  | addSubscriber (sub : Subscriber)
  | removeSubscriber (id : String)
  deriving DecidableEq

/-- What an operation makes of the store it has loaded, if it saves it. -/
def StoreOp.apply (s : SubscriptionStore) : StoreOp → Option SubscriptionStore
  | .saveCursor cursor => some (s.saveCursor cursor)
  | .addSubscriber sub => s.addSubscriber sub
  | .removeSubscriber id => s.removeSubscriber id

/-- What an operation makes of the file. -/
def StoreOp.edit (op : StoreOp) (f : File) : Option File := (op.apply (load f.read)).map .stored

/-- The file, with the operations under way. -/
abbrev Files := Shared File StoreOp

/-- The subscribers in a file. -/
def File.subscribers (f : File) : List Subscriber := (load f.read).subscribers

/-- The cursor in a file. -/
def File.cursor (f : File) : Cursor := (load f.read).cursor

/-! ## One operation -/

variable {f : File} {op : StoreOp}

@[simp]
theorem load_stored (s : SubscriptionStore) : load (File.stored s).read = s := rfl

/-- A new subscriber is the last one. -/
theorem subscribers_add (f : File) (sub : Subscriber) :
    (perform StoreOp.edit f (.addSubscriber sub)).subscribers =
      f.subscribers ++ if sub.hasChannel then [sub] else [] := by
  rw [perform, StoreOp.edit, StoreOp.apply, SubscriptionStore.addSubscriber]
  split
  · rfl
  · exact (List.append_nil _).symm

/-- All others stay. -/
theorem subscribers_remove (f : File) (id : String) :
    (perform StoreOp.edit f (.removeSubscriber id)).subscribers = f.subscribers.filter fun sub => sub.id ≠ id := by
  rw [perform, StoreOp.edit, StoreOp.apply, SubscriptionStore.removeSubscriber]
  split
  · rename_i hlength
    exact (List.filter_sublist.eq_of_length hlength).symm
  · rfl

theorem cursor_saveCursor (f : File) (cursor : Cursor) :
    (perform StoreOp.edit f (.saveCursor cursor)).cursor = cursor := rfl

/-- No other operation changes the cursor. -/
theorem cursor_perform (f : File) (h : ∀ cursor, op ≠ .saveCursor cursor) :
    (perform StoreOp.edit f op).cursor = f.cursor := by
  cases op with
  | saveCursor cursor => exact absurd rfl (h cursor)
  | addSubscriber sub =>
    rw [perform, StoreOp.edit, StoreOp.apply, SubscriptionStore.addSubscriber]
    split <;> rfl
  | removeSubscriber id =>
    rw [perform, StoreOp.edit, StoreOp.apply, SubscriptionStore.removeSubscriber]
    split <;> rfl

/-- An operation that saves a removal has found the subscriber. -/
theorem mem_of_remove {id : String} {g : File} (h : StoreOp.edit (.removeSubscriber id) f = some g) :
    ∃ sub ∈ f.subscribers, sub.id = id := by
  by_contra hnone
  push Not at hnone
  rw [StoreOp.edit, StoreOp.apply, SubscriptionStore.removeSubscriber] at h
  have hall : (load f.read).subscribers.filter (fun sub => sub.id ≠ id) = (load f.read).subscribers :=
    List.filter_eq_self.2 fun sub hsub => decide_eq_true (hnone sub hsub)
  rw [hall, if_pos rfl] at h
  cases h

/-! ## One operation after another -/

/-- The id that a subscriber is added under. -/
def StoreOp.added : StoreOp → Option String
  | .addSubscriber sub => some sub.id
  | _ => none

/-- The id that a subscriber is removed under. -/
def StoreOp.removed : StoreOp → Option String
  | .removeSubscriber id => some id
  | _ => none

/-- The id is one of a subscriber in the file, or of one that an operation adds or removes. -/
def Known (f : File) (ops : List StoreOp) (id : String) : Prop :=
  (∃ sub ∈ f.subscribers, sub.id = id) ∨ ∃ op ∈ ops, op.added = some id ∨ op.removed = some id

/-- Every subscriber is added with a channel, and under an id that is not known before. -/
inductive Orderly (f : File) : List StoreOp → Prop
  | nil : Orderly f []
  | concat {ops : List StoreOp} {op : StoreOp} (h : Orderly f ops)
      (hnew : ∀ sub, op = .addSubscriber sub → sub.hasChannel ∧ ¬Known f ops sub.id) : Orderly f (ops ++ [op])

/-- Nothing that the operations have done is lost. -/
structure Performed (g : File) (ops : List StoreOp) : Prop where
  /-- Who has been added and not removed is there once. -/
  added : ∀ sub, .addSubscriber sub ∈ ops → .removeSubscriber sub.id ∉ ops →
    (g.subscribers.filter fun s => s.id = sub.id) = [sub]
  removed : ∀ id, .removeSubscriber id ∈ ops → ∀ sub ∈ g.subscribers, sub.id ≠ id
  cursor : ∀ xs cursor ys, ops = xs ++ .saveCursor cursor :: ys → (∀ c, .saveCursor c ∉ ys) →
    g.cursor = cursor

variable {ops : List StoreOp}

theorem Known.concat {id : String} (h : Known f ops id) (op : StoreOp) : Known f (ops ++ [op]) id :=
  h.imp_right fun ⟨o, ho, hid⟩ => ⟨o, List.mem_append_left _ ho, hid⟩

/-- Who is in the file was there at first, or has been added. -/
theorem known_of_mem (ops : List StoreOp) {sub : Subscriber}
    (h : sub ∈ (run (perform StoreOp.edit) f ops).subscribers) : Known f ops sub.id := by
  induction ops using List.reverseRecOn with
  | nil => exact .inl ⟨sub, h, rfl⟩
  | append_singleton ops op ih =>
    rw [run_concat] at h
    cases op with
    | saveCursor cursor => exact (ih h).concat _
    | addSubscriber new =>
      rw [subscribers_add] at h
      rcases List.mem_append.1 h with h | h
      · exact (ih h).concat _
      · split at h
        · obtain rfl := List.mem_singleton.1 h
          exact .inr ⟨_, List.mem_append_right _ (List.mem_singleton_self _), .inl rfl⟩
        · exact absurd h List.not_mem_nil
    | removeSubscriber id =>
      rw [subscribers_remove] at h
      exact (ih (List.mem_filter.1 h).1).concat _

/-- The last operation that saves a cursor is one of those before, if it is not the last of all. -/
theorem cursor_concat {g : File} (h : Performed g ops) (hop : ∀ c, op ≠ .saveCursor c) {xs ys : List StoreOp}
    {cursor : Cursor} (hops : ops ++ [op] = xs ++ .saveCursor cursor :: ys) (hys : ∀ c, .saveCursor c ∉ ys) :
    (perform StoreOp.edit g op).cursor = cursor := by
  rw [cursor_perform g hop]
  rcases List.eq_nil_or_concat ys with rfl | ⟨zs, z, rfl⟩
  · obtain ⟨_, hlast⟩ := List.append_inj' hops rfl
    exact absurd (List.singleton_inj.1 hlast) (hop cursor)
  · rw [List.concat_eq_append, ← List.cons_append, ← List.append_assoc] at hops
    obtain ⟨hinit, _⟩ := List.append_inj' hops rfl
    refine h.cursor xs cursor zs hinit fun c hc => hys c ?_
    rw [List.concat_eq_append]
    exact List.mem_append_left _ hc

/-- Saving the cursor leaves the subscribers as they are. -/
theorem Performed.saveCursor {g : File} (h : Performed g ops) (cursor : Cursor) :
    Performed (perform StoreOp.edit g (.saveCursor cursor)) (ops ++ [.saveCursor cursor]) := by
  refine ⟨?_, ?_, ?_⟩
  · intro sub hadd hremove
    refine h.added sub ?_ fun hmem => hremove (List.mem_append_left _ hmem)
    exact (List.mem_append.1 hadd).resolve_right (by simp)
  · intro id hremove
    exact h.removed id ((List.mem_append.1 hremove).resolve_right (by simp))
  · intro xs c ys hops hys
    rw [cursor_saveCursor]
    -- It is the last operation that saves one.
    rcases List.eq_nil_or_concat ys with rfl | ⟨zs, z, rfl⟩
    · obtain ⟨_, hlast⟩ := List.append_inj' hops rfl
      exact StoreOp.saveCursor.inj (List.singleton_inj.1 hlast)
    · rw [List.concat_eq_append, ← List.cons_append, ← List.append_assoc] at hops
      obtain ⟨_, hlast⟩ := List.append_inj' hops rfl
      refine absurd ?_ (hys cursor)
      rw [List.concat_eq_append, List.singleton_inj.1 hlast]
      exact List.mem_append_right _ (List.mem_singleton_self _)

/-- A subscriber who is added under a new id is there once, and is none of those removed. -/
theorem Performed.addSubscriber (h : Performed (run (perform StoreOp.edit) f ops) ops) {sub : Subscriber}
    (hchannel : sub.hasChannel) (hnew : ¬Known f ops sub.id) :
    Performed (perform StoreOp.edit (run (perform StoreOp.edit) f ops) (.addSubscriber sub))
      (ops ++ [.addSubscriber sub]) := by
  have hsubs := subscribers_add (run (perform StoreOp.edit) f ops) sub
  rw [if_pos hchannel] at hsubs
  refine ⟨?_, ?_, fun _ _ _ hops hys => cursor_concat h (fun _ e => by cases e) hops hys⟩
  · intro other hadd hremove
    rw [hsubs, List.filter_append]
    rcases List.mem_append.1 hadd with hadd | hadd
    · have hne : sub.id ≠ other.id := fun e => hnew (.inr ⟨_, hadd, .inl (congrArg some e.symm)⟩)
      rw [h.added other hadd fun hmem => hremove (List.mem_append_left _ hmem),
        List.filter_cons_of_neg (by rwa [decide_eq_true_eq]), List.filter_nil, List.append_nil]
    · obtain rfl := StoreOp.addSubscriber.inj (List.mem_singleton.1 hadd)
      have hnone : ((run (perform StoreOp.edit) f ops).subscribers.filter fun s => s.id = other.id) = [] :=
        List.filter_eq_nil_iff.2 fun s hs hid =>
          hnew (of_decide_eq_true hid ▸ known_of_mem ops hs)
      rw [hnone, List.nil_append]
      exact List.filter_cons_of_pos (decide_eq_true rfl)
  · intro id hremove s hs
    have hremoved := (List.mem_append.1 hremove).resolve_right (by simp)
    rw [hsubs] at hs
    rcases List.mem_append.1 hs with hs | hs
    · exact h.removed id hremoved s hs
    · rw [List.mem_singleton.1 hs]
      exact fun e => hnew (.inr ⟨_, hremoved, .inr (congrArg some e.symm)⟩)

/-- A subscriber who is removed is not there, and all others still are. -/
theorem Performed.removeSubscriber {g : File} (h : Performed g ops) (id : String) :
    Performed (perform StoreOp.edit g (.removeSubscriber id)) (ops ++ [.removeSubscriber id]) := by
  have hsubs := subscribers_remove g id
  refine ⟨?_, ?_, fun _ _ _ hops hys => cursor_concat h (fun _ e => by cases e) hops hys⟩
  · intro sub hadd hremove
    have hne : sub.id ≠ id := fun e =>
      hremove (List.mem_append_right _ (List.mem_singleton.2 (congrArg StoreOp.removeSubscriber e)))
    rw [hsubs, List.filter_filter]
    refine (List.filter_congr fun s _ => ?_).trans
      (h.added sub ((List.mem_append.1 hadd).resolve_right (by simp)) fun hmem =>
        hremove (List.mem_append_left _ hmem))
    rw [← Bool.decide_and, decide_eq_decide]
    exact and_iff_left_of_imp fun e => e ▸ hne
  · intro id' hremove s hs
    rw [hsubs] at hs
    obtain ⟨hs, hid⟩ := List.mem_filter.1 hs
    rcases List.mem_append.1 hremove with hremoved | hlast
    · exact h.removed id' hremoved s hs
    · rw [StoreOp.removeSubscriber.inj (List.mem_singleton.1 hlast)]
      exact of_decide_eq_true hid

/-- Operations that are performed one after another lose nothing. -/
theorem performed (h : Orderly f ops) : Performed (run (perform StoreOp.edit) f ops) ops := by
  induction h with
  | nil =>
    exact ⟨fun sub hadd => absurd hadd List.not_mem_nil, fun id hremove => absurd hremove List.not_mem_nil,
      fun xs c ys hops => absurd hops.symm (by simp)⟩
  | @concat ops op h hnew ih =>
    rw [run_concat]
    cases op with
    | saveCursor cursor => exact ih.saveCursor cursor
    | addSubscriber sub => exact ih.addSubscriber (hnew sub rfl).1 (hnew sub rfl).2
    | removeSubscriber id => exact ih.removeSubscriber id

/-! ## Operations at the same time -/

/-- The subscriber whom an operation is to add has an id that is not known: `crypto.randomUUID` makes a new
    one for each. -/
def NewId (f : File) (s : Files) : Access StoreOp → Prop
  | .load (.addSubscriber sub) => ¬Known f (s.completed ++ s.pending.map Prod.fst) sub.id
  | _ => True

/-- What is known of the operations under way, when the file was `f` at first. -/
structure Tidy (f : File) (s : Files) : Prop where
  completed : Orderly f s.completed
  adds : ∀ c ∈ s.pending, ∀ sub, c.1 = .addSubscriber sub → sub.hasChannel ∧ ¬Known f s.completed sub.id
  distinct : (s.pending.filterMap fun c => c.1.added).Nodup
  removes : ∀ c ∈ s.pending, ∀ id, c.1 = .removeSubscriber id → Known f s.completed id

variable {s : Files}

theorem known_concat {id : String} :
    Known f (ops ++ [op]) id ↔ Known f ops id ∨ op.added = some id ∨ op.removed = some id := by
  simp only [Known, List.mem_append, List.mem_singleton, or_and_right, exists_or, exists_eq_left, or_assoc]

theorem StoreOp.added_eq {id : String} (h : op.added = some id) : ∃ sub, op = .addSubscriber sub ∧ sub.id = id := by
  cases op with
  | addSubscriber sub => exact ⟨sub, rfl, Option.some_inj.1 h⟩
  | _ => cases h

theorem StoreOp.removed_eq {id : String} (h : op.removed = some id) : op = .removeSubscriber id := by
  cases op with
  | removeSubscriber id' => rw [Option.some_inj.1 h]
  | _ => cases h

/-- An operation begins. -/
theorem Tidy.begin (h : Tidy f s) (hvalue : s.value = run (perform StoreOp.edit) f s.completed) {g : File}
    (hedit : op.edit s.value = some g) (hid : NewId f s (.load op)) :
    Tidy f ⟨s.value, s.pending ++ [(op, g)], s.completed⟩ := by
  refine ⟨h.completed, ?_, ?_, ?_⟩
  · intro c hc sub hsub
    rcases List.mem_append.1 hc with hc | hc
    · exact h.adds c hc sub hsub
    · obtain rfl := List.mem_singleton.1 hc
      dsimp only at hsub
      subst hsub
      refine ⟨?_, fun hknown => hid (hknown.imp_right fun ⟨o, ho, hk⟩ => ⟨o, List.mem_append_left _ ho, hk⟩)⟩
      by_contra hchannel
      rw [StoreOp.edit, StoreOp.apply, SubscriptionStore.addSubscriber, if_neg hchannel] at hedit
      cases hedit
  · rw [List.filterMap_append]
    cases hadded : op.added with
    | none =>
      simp only [List.filterMap_cons, hadded, List.filterMap_nil, List.append_nil]
      exact h.distinct
    | some id =>
      simp only [List.filterMap_cons, hadded, List.filterMap_nil]
      refine h.distinct.append (List.nodup_singleton _) ?_
      intro id' hid' hnew
      obtain rfl := List.mem_singleton.1 hnew
      obtain ⟨c, hc, hadd⟩ := List.mem_filterMap.1 hid'
      obtain ⟨sub, rfl, rfl⟩ := StoreOp.added_eq hadded
      exact hid (.inr ⟨c.1, List.mem_append_right _ (List.mem_map_of_mem hc), .inl hadd⟩)
  · intro c hc id hremove
    rcases List.mem_append.1 hc with hc | hc
    · exact h.removes c hc id hremove
    · obtain rfl := List.mem_singleton.1 hc
      dsimp only at hremove
      subst hremove
      obtain ⟨sub, hsub, rfl⟩ := mem_of_remove hedit
      exact known_of_mem s.completed (hvalue ▸ hsub)

/-- An operation ends. -/
theorem Tidy.finish (h : Tidy f s) {k : ℕ} {g : File} (hk : s.pending[k]? = some (op, g)) (v : File) :
    Tidy f ⟨v, s.pending.eraseIdx k, s.completed ++ [op]⟩ := by
  obtain ⟨hlt, hget⟩ := List.getElem?_eq_some_iff.1 hk
  have hmem : (op, g) ∈ s.pending := List.mem_of_getElem? hk
  have hsub := List.eraseIdx_subset (l := s.pending) (k := k)
  refine ⟨?_, ?_, ?_, ?_⟩
  · exact .concat h.completed fun sub hsub => h.adds _ hmem sub hsub
  · intro c hc sub hadd
    obtain ⟨hchannel, hnew⟩ := h.adds c (hsub hc) sub hadd
    refine ⟨hchannel, fun hknown => ?_⟩
    rcases known_concat.1 hknown with hknown | hadded | hremoved
    · exact hnew hknown
    · -- Two pending operations do not add the same id.
      have hperm := (List.getElem_cons_eraseIdx_perm hlt).filterMap fun c => c.1.added
      simp only [hget, List.filterMap_cons, hadded] at hperm
      have hnodup := hperm.nodup_iff.2 h.distinct
      refine (List.nodup_cons.1 hnodup).1 (List.mem_filterMap.2 ⟨c, hc, ?_⟩)
      rw [hadd]
      rfl
    · exact hnew (h.removes _ hmem sub.id (StoreOp.removed_eq hremoved))
  · exact h.distinct.sublist ((List.eraseIdx_sublist _ _).filterMap _)
  · exact fun c hc id hremove => (h.removes c (hsub hc) id hremove).concat _

theorem run_tidy {as : List (Access StoreOp)}
    (h : Along (Shared.step StoreOp.edit) (fun s a => NewId f s a ∧ Current StoreOp.edit s a) (.init f) as) :
    Tidy f (run (Shared.step StoreOp.edit) (.init f) as) := by
  induction as using List.reverseRecOn with
  | nil => exact ⟨.nil, List.forall_mem_nil _, List.nodup_nil, List.forall_mem_nil _⟩
  | append_singleton as a ih =>
    have hvalue := value_eq_run (h.left.imp fun _ _ hs => hs.2)
    have htidy := ih h.left
    have hid := (h.right.head).1
    rw [run_concat]
    rcases step_cases StoreOp.edit (run (Shared.step StoreOp.edit) (.init f) as) a with
      hsame | ⟨op, g, rfl, hedit, hstep⟩ | ⟨k, op, g, rfl, hk, hstep⟩
    · rwa [hsame]
    · rw [hstep]
      exact htidy.begin hvalue hedit hid
    · rw [hstep]
      exact htidy.finish hk g

/-- In every interleaving of the watcher and of any processes of the command line, in which every operation
    saves what it would also make of the file as it is then, nothing that has been completed is lost:
    every subscriber that was added and not removed is in the file once, none that was removed is, and
    the cursor is the one that was saved last. -/
theorem no_lost_update {as : List (Access StoreOp)}
    (h : Along (Shared.step StoreOp.edit) (fun s a => NewId f s a ∧ Current StoreOp.edit s a) (.init f) as) :
    Performed (run (Shared.step StoreOp.edit) (.init f) as).value
      (run (Shared.step StoreOp.edit) (.init f) as).completed := by
  rw [value_eq_run (h.imp fun _ _ hs => hs.2)]
  exact performed (run_tidy h).completed

/-- A subscriber who is reached by email. -/
def sampleSubscriber (id : String) : Subscriber where
  id
  proposalId := none
  events := ["created", "final"]
  email := some "alice@example.com"
  webhookUrl := none
  slackWebhookUrl := none
  discordWebhookUrl := none

/-- A subscriber is added, and the watcher saves its cursor after that. -/
theorem no_lost_update_adding :
    let as : List (Access StoreOp) := [.load (.addSubscriber (sampleSubscriber "a1")), .save 0,
      .load (.saveCursor (.after ⟨5, 1⟩)), .save 0]
    Performed (run (Shared.step StoreOp.edit) (.init .missing) as).value
      [.addSubscriber (sampleSubscriber "a1"), .saveCursor (.after ⟨5, 1⟩)] := by
  intro as
  -- Nobody else saves between the two steps of an operation.
  have hsaves (s : Shared File StoreOp) (op : StoreOp) (v : File) (hedit : op.edit s.value = some v) :
      Current StoreOp.edit (s.step StoreOp.edit (.load op)) (.save s.pending.length) :=
    current_of_loads s hedit (List.forall_mem_nil _)
  have h : Along (Shared.step StoreOp.edit) (fun s a => NewId .missing s a ∧ Current StoreOp.edit s a)
      (.init .missing) as := by
    refine .cons ⟨?_, trivial⟩ (.cons ⟨trivial, ?_⟩ (.cons ⟨trivial, trivial⟩ (.cons ⟨trivial, ?_⟩ along_nil)))
    · rintro (⟨_, hmem, _⟩ | ⟨_, hmem, _⟩) <;> exact absurd hmem List.not_mem_nil
    · exact hsaves _ _ _ rfl
    · exact hsaves _ _ _ rfl
  exact no_lost_update h

/-- The watcher has loaded the file before a subscriber is added, and saves it after that. -/
theorem lost_update :
    let as : List (Access StoreOp) := [.load (.saveCursor (.after ⟨5, 1⟩)),
      .load (.addSubscriber (sampleSubscriber "a1")), .save 1, .save 0]
    let s := run (Shared.step StoreOp.edit) (.init .missing) as
    s.completed = [.addSubscriber (sampleSubscriber "a1"), .saveCursor (.after ⟨5, 1⟩)] ∧
      s.value.subscribers = [] ∧ ¬Performed s.value s.completed := by
  intro as s
  have hsubs : s.value.subscribers = [] := by decide
  refine ⟨by decide, hsubs, fun h => ?_⟩
  have hadded := h.added (sampleSubscriber "a1") (by decide) (by decide)
  rw [hsubs] at hadded
  cases hadded

end CosmosVote.Notifications
