import CosmosVote.Concurrent.Pages
import CosmosVote.Soroban.Run

/-!
# Polls that overlap

A log grows at its end, and a reader polls it: at every tick it asks for a page after its cursor, and when the
answer arrives, it sees the elements of the page and moves its cursor after the last of them. A tick does not
wait for the answer of the one before, so that several requests can be on their way, and they may fail.

* `run_covered`: whatever overlaps, the reader has seen everything up to its cursor;
* `run_exact`: if no poll begins before the one before has ended, it has seen everything up to its cursor once,
  and in order;
* `seen_polls`: after enough polls, this is all there is.
-/

namespace Concurrent

open Soroban

/-- A request of the reader: it waits to be answered, or its answer is on its way. -/
inductive Request (α κ : Type*)
  | asked (cursor : Option κ)
  | served (page : List α)

/-- A log, and a reader who polls it. -/
structure Poller (α κ : Type*) where
  log : List α
  cursor : Option κ
  requests : List (Request α κ)
  seen : List α

inductive Poll (α : Type*)
  | arrive (x : α)
  | tick
  /-- The request `k` is answered. -/
  | serve (k : ℕ)
  /-- The answer to the request `k` arrives. -/
  | deliver (k : ℕ)
  | fail (k : ℕ)

variable {α κ : Type*} [DecidableEq κ] (key : α → κ) (limit : ℕ)

namespace Poller

/-- What is not there to be served or delivered changes nothing. -/
def step (p : Poller α κ) : Poll α → Poller α κ
  | .arrive x => { p with log := p.log ++ [x] }
  | .tick => { p with requests := p.requests ++ [.asked p.cursor] }
  | .serve k =>
    match p.requests[k]? with
    | some (.asked cursor) =>
      { p with requests := p.requests.set k (.served ((after key p.log cursor).take limit)) }
    | _ => p
  | .deliver k =>
    match p.requests[k]? with
    | some (.served page) =>
      { p with
        cursor := next key p.cursor page
        seen := p.seen ++ page
        requests := p.requests.eraseIdx k }
    | _ => p
  | .fail k => { p with requests := p.requests.eraseIdx k }

def init (α κ : Type*) : Poller α κ := ⟨[], none, [], []⟩

/-- The elements that arrive during the polls. -/
def arrivals (cs : List (Poll α)) : List α :=
  cs.filterMap fun
    | .arrive x => some x
    | _ => none

variable {key limit} {p p' : Poller α κ}

theorem log_step (c : Poll α) : (p.step key limit c).log = p.log ++ arrivals [c] := by
  cases c with
  | arrive x => rfl
  | tick => exact (List.append_nil _).symm
  | fail k => exact (List.append_nil _).symm
  | serve k =>
    rw [step]
    split <;> exact (List.append_nil _).symm
  | deliver k =>
    rw [step]
    split <;> exact (List.append_nil _).symm

theorem log_run (p : Poller α κ) (cs : List (Poll α)) :
    (run (step key limit) p cs).log = p.log ++ arrivals cs := by
  induction cs generalizing p with
  | nil => exact (List.append_nil _).symm
  | cons c cs ih =>
    rw [run_cons, ih, log_step, List.append_assoc, arrivals, arrivals, arrivals, ← List.filterMap_append]
    rfl

/-! ## What has been seen -/

/-- Everything up to a cursor has been seen. -/
def Covers (key : α → κ) (p : Poller α κ) (cursor : Option κ) : Prop :=
  Placed key p.log cursor ∧ ∀ x ∈ upTo key p.log cursor, x ∈ p.seen

theorem Covers.mono {cursor : Option κ} (h : p.Covers key cursor) (hlog : p.log <+: p'.log)
    (hseen : ∀ x ∈ p.seen, x ∈ p'.seen) : p'.Covers key cursor := by
  obtain ⟨l, hl⟩ := hlog
  rw [Covers, ← hl, upTo_append h.1]
  exact ⟨h.1.append l, fun x hx => hseen x (h.2 x hx)⟩

/-- A request asks for what comes after a cursor up to which everything has been seen, or is answered by it. -/
def Sound (key : α → κ) (p : Poller α κ) : Request α κ → Prop
  | .asked cursor => p.Covers key cursor
  | .served page => ∃ cursor rest, p.Covers key cursor ∧ after key p.log cursor = page ++ rest

theorem Sound.mono {r : Request α κ} (h : p.Sound key r) (hlog : p.log <+: p'.log)
    (hseen : ∀ x ∈ p.seen, x ∈ p'.seen) : p'.Sound key r := by
  cases r with
  | asked cursor => exact Covers.mono h hlog hseen
  | served page =>
    obtain ⟨cursor, rest, hcovers, hafter⟩ := h
    obtain ⟨l, hl⟩ := hlog
    refine ⟨cursor, rest ++ l, hcovers.mono ⟨l, hl⟩ hseen, ?_⟩
    rw [← hl, after_append hcovers.1, hafter, List.append_assoc]

/-- Everything up to the cursor, and up to those of the requests, has been seen. -/
structure Covered (key : α → κ) (p : Poller α κ) : Prop where
  cursor : p.Covers key p.cursor
  requests : ∀ r ∈ p.requests, p.Sound key r
  seen_mem : ∀ x ∈ p.seen, x ∈ p.log

theorem Covered.init : Covered key (init α κ) where
  cursor := ⟨placed_none, fun _ hx => absurd hx List.not_mem_nil⟩
  requests _ hr := absurd hr List.not_mem_nil
  seen_mem _ hx := absurd hx List.not_mem_nil

/-- The elements of the next page have been seen. -/
theorem Covers.next {page rest : List α} {cursor : Option κ} (hdistinct : (p.log.map key).Nodup)
    (h : p.Covers key cursor) (hafter : after key p.log cursor = page ++ rest) (hlog : p'.log = p.log)
    (hseen : p'.seen = p.seen ++ page) : p'.Covers key (Concurrent.next key cursor page) := by
  rw [Covers, hlog, hseen, upTo_next hdistinct hafter]
  refine ⟨h.1.next hafter, fun x hx => ?_⟩
  rcases List.mem_append.1 hx with hx | hx
  · exact List.mem_append_left _ (h.2 x hx)
  · exact List.mem_append_right _ hx

theorem Covered.step (h : p.Covered key) (hdistinct : (p.log.map key).Nodup) (c : Poll α) :
    (p.step key limit c).Covered key := by
  cases c with
  | arrive x =>
    have hlog : p.log <+: p.log ++ [x] := List.prefix_append _ _
    exact ⟨h.cursor.mono hlog fun _ => id, fun r hr => (h.requests r hr).mono hlog fun _ => id,
      fun y hy => List.mem_append_left _ (h.seen_mem y hy)⟩
  | tick =>
    refine ⟨h.cursor, fun r hr => ?_, h.seen_mem⟩
    rcases List.mem_append.1 hr with hr | hr
    · exact h.requests r hr
    · rw [List.mem_singleton.1 hr]
      exact h.cursor
  | fail k => exact ⟨h.cursor, fun r hr => h.requests r (List.mem_of_mem_eraseIdx hr), h.seen_mem⟩
  | serve k =>
    rw [Poller.step]
    split
    · rename_i cursor hk
      refine ⟨h.cursor, fun r hr => ?_, h.seen_mem⟩
      rcases List.mem_or_eq_of_mem_set hr with hr | rfl
      · exact h.requests r hr
      · exact ⟨cursor, _, h.requests _ (List.mem_of_getElem? hk), (List.take_append_drop limit _).symm⟩
    · exact h
  | deliver k =>
    rw [Poller.step]
    split
    · rename_i page hk
      obtain ⟨cursor, rest, hcovers, hafter⟩ := h.requests _ (List.mem_of_getElem? hk)
      have hseen : ∀ x ∈ p.seen, x ∈ p.seen ++ page := fun x hx => List.mem_append_left _ hx
      refine ⟨?_, fun r hr => (h.requests r (List.mem_of_mem_eraseIdx hr)).mono (List.prefix_refl _) hseen,
        fun x hx => ?_⟩
      · rcases List.eq_nil_or_concat page with rfl | ⟨xs, x, rfl⟩
        · exact h.cursor.mono (List.prefix_refl _) hseen
        · -- The cursor is moved to the last element of the page, wherever it was.
          have hnext : next key p.cursor (xs.concat x) = next key cursor (xs.concat x) := by
            rw [next, next, List.concat_eq_append, List.getLast?_concat]
            rfl
          dsimp only
          rw [hnext]
          exact hcovers.next hdistinct hafter rfl rfl
      · rcases List.mem_append.1 hx with hx | hx
        · exact h.seen_mem x hx
        · rw [← upTo_append_after key p.log cursor, hafter]
          exact List.mem_append_right _ (List.mem_append_left _ hx)
    · exact h

/-- Whatever overlaps, and whatever fails, the reader has seen everything up to its cursor. -/
theorem run_covered {cs : List (Poll α)} (hdistinct : ((arrivals cs).map key).Nodup) :
    (run (step key limit) (init α κ) cs).Covered key := by
  induction cs using List.reverseRecOn with
  | nil => exact .init
  | append_singleton cs c ih =>
    rw [arrivals, List.filterMap_append, List.map_append, List.nodup_append] at hdistinct
    rw [run_concat]
    refine (ih hdistinct.1).step ?_ c
    rw [log_run]
    exact hdistinct.1

/-! ## Polls that do not overlap -/

/-- No poll begins before the one before has ended. -/
def Alone (p : Poller α κ) (c : Poll α) : Prop := c = .tick → p.requests = []

/-- Everything up to the cursor has been seen once and in order, and the request, if there is one, is for what
    comes after it. -/
structure Exact (key : α → κ) (p : Poller α κ) : Prop where
  placed : Placed key p.log p.cursor
  seen_eq : p.seen = upTo key p.log p.cursor
  asked : ∀ cursor, .asked cursor ∈ p.requests → cursor = p.cursor
  served : ∀ page, .served page ∈ p.requests → page <+: after key p.log p.cursor
  alone : p.requests.length ≤ 1

/-- Between two polls. -/
theorem Exact.idle (hnone : p.requests = []) (hplaced : Placed key p.log p.cursor)
    (hseen : p.seen = upTo key p.log p.cursor) : p.Exact key where
  placed := hplaced
  seen_eq := hseen
  asked _ h := absurd h (hnone ▸ List.not_mem_nil)
  served _ h := absurd h (hnone ▸ List.not_mem_nil)
  alone := hnone ▸ Nat.zero_le 1

theorem Exact.init : Exact key (init α κ) := .idle rfl placed_none rfl

theorem Exact.step (h : p.Exact key) (hdistinct : (p.log.map key).Nodup) {c : Poll α} (hc : p.Alone c) :
    (p.step key limit c).Exact key := by
  cases c with
  | arrive x =>
    refine ⟨h.placed.append [x], ?_, h.asked, fun page hpage => ?_, h.alone⟩
    · exact h.seen_eq.trans (upTo_append h.placed [x]).symm
    · dsimp only [Poller.step]
      rw [after_append h.placed]
      exact (h.served page hpage).trans (List.prefix_append _ _)
  | tick =>
    have hnone := hc rfl
    refine ⟨h.placed, h.seen_eq, fun cursor hcursor => ?_, fun page hpage => ?_, ?_⟩
    · rw [Poller.step, hnone] at hcursor
      cases List.mem_singleton.1 hcursor
      rfl
    · rw [Poller.step, hnone] at hpage
      cases List.mem_singleton.1 hpage
    · rw [Poller.step, hnone]
      exact Nat.le_refl 1
  | fail k =>
    exact ⟨h.placed, h.seen_eq, fun cursor hcursor => h.asked cursor (List.mem_of_mem_eraseIdx hcursor),
      fun page hpage => h.served page (List.mem_of_mem_eraseIdx hpage),
      Nat.le_trans (List.length_eraseIdx_le _ _) h.alone⟩
  | serve k =>
    rw [Poller.step]
    split
    · rename_i cursor hk
      refine ⟨h.placed, h.seen_eq, fun cursor' hcursor' => ?_, fun page hpage => ?_, ?_⟩
      · rcases List.mem_or_eq_of_mem_set hcursor' with hmem | heq
        · exact h.asked cursor' hmem
        · cases heq
      · rcases List.mem_or_eq_of_mem_set hpage with hmem | heq
        · exact h.served page hmem
        · cases heq
          rw [h.asked cursor (List.mem_of_getElem? hk)]
          exact List.take_prefix _ _
      · exact List.length_set.trans_le h.alone
    · exact h
  | deliver k =>
    rw [Poller.step]
    split
    · rename_i page hk
      obtain ⟨rest, hrest⟩ := h.served page (List.mem_of_getElem? hk)
      have hnone : p.requests.eraseIdx k = [] := by
        have hlt := (List.getElem?_eq_some_iff.1 hk).1
        have halone := h.alone
        refine List.eq_nil_of_length_eq_zero ?_
        rw [List.length_eraseIdx_of_lt hlt]
        omega
      refine .idle hnone (h.placed.next hrest.symm) ?_
      exact (congrArg (· ++ page) h.seen_eq).trans (upTo_next hdistinct hrest.symm).symm
    · exact h

theorem run_exact {cs : List (Poll α)} (hdistinct : ((arrivals cs).map key).Nodup)
    (halone : Along (step key limit) Alone (init α κ) cs) : (run (step key limit) (init α κ) cs).Exact key := by
  induction cs using List.reverseRecOn with
  | nil => exact .init
  | append_singleton cs c ih =>
    rw [arrivals, List.filterMap_append, List.map_append, List.nodup_append] at hdistinct
    rw [run_concat]
    refine (ih hdistinct.1 halone.left).step ?_ halone.right.head
    rw [log_run]
    exact hdistinct.1

/-! ## Polls that succeed -/

/-- One poll after another, each answered before the next one begins. -/
def polls (α : Type*) (n : ℕ) : List (Poll α) := (List.replicate n [.tick, .serve 0, .deliver 0]).flatten

theorem run_poll (h : p.requests = []) : run (step key limit) p [.tick, .serve 0, .deliver 0] =
    { p with
      cursor := next key p.cursor ((after key p.log p.cursor).take limit)
      seen := p.seen ++ (after key p.log p.cursor).take limit } := by
  obtain ⟨log, cursor, requests, seen⟩ := p
  obtain rfl : requests = [] := h
  rfl

/-- What is not read yet is read in enough polls. -/
theorem seen_polls (hlimit : 0 < limit) (hdistinct : (p.log.map key).Nodup) (h : p.Exact key)
    (hnone : p.requests = []) {n : ℕ} (hn : (after key p.log p.cursor).length ≤ n) :
    (run (step key limit) p (polls α n)).seen = p.log := by
  induction n generalizing p with
  | zero =>
    have hafter := List.eq_nil_of_length_eq_zero (Nat.le_zero.1 hn)
    have hall := upTo_append_after key p.log p.cursor
    rw [hafter, List.append_nil] at hall
    exact h.seen_eq.trans hall
  | succ n ih =>
    rw [polls, List.replicate_succ, List.flatten_cons, run_append, run_poll hnone]
    have hpage := (List.take_append_drop limit (after key p.log p.cursor)).symm
    have hnext : Exact key { p with
        cursor := next key p.cursor ((after key p.log p.cursor).take limit)
        seen := p.seen ++ (after key p.log p.cursor).take limit } :=
      .idle hnone (h.placed.next hpage) <|
        (congrArg (· ++ _) h.seen_eq).trans (upTo_next hdistinct hpage).symm
    refine ih hdistinct hnext hnone ?_
    dsimp only
    rw [after_next hdistinct hpage, List.length_drop]
    omega

end Poller

end Concurrent
