import Mathlib.Data.List.Nodup
import Mathlib.Order.Defs.PartialOrder
import Mathlib.Tactic.Common

/-!
# Reading a list page by page

A list grows at its end, and its elements have distinct keys. Who reads it keeps the key of the last
element read, or none before the first one, and asks for the elements after it, so many at a time.

* `position_append`: how much has been read does not change as the list grows;
* `upTo_next`, `after_next`: a page that is read moves from what is left to what has been read;
* `drop_eq_filter`: if the keys ascend, what is left after a page are the elements with greater keys.
* `filter_filterMap_key`: what is found under its own key is found once.
-/

namespace Concurrent

variable {α κ : Type*} (key : α → κ) (l : List α)

/-- The key is that of an element. -/
def Placed (cursor : Option κ) : Prop := ∀ k, cursor = some k → ∃ x ∈ l, key x = k

/-- The key of the last element of a page, or the cursor as it was if there is none. -/
def next (cursor : Option κ) (page : List α) : Option κ := (page.getLast?.map key).or cursor

variable {key l} in
theorem placed_none : Placed key l none := nofun

variable {key l} in
theorem Placed.append {cursor : Option κ} (h : Placed key l cursor) (m : List α) : Placed key (l ++ m) cursor := by
  intro k hk
  obtain ⟨x, hx, hkey⟩ := h k hk
  exact ⟨x, List.mem_append_left m hx, hkey⟩

variable [DecidableEq κ]

/-- How many elements have been read, up to and with the one that has the key. -/
def position : Option κ → ℕ
  | none => 0
  | some k => (l.findIdx fun x => key x = k) + 1

/-- The elements that have been read. -/
def upTo (cursor : Option κ) : List α := l.take (position key l cursor)

/-- The elements that have not been read. -/
def after (cursor : Option κ) : List α := l.drop (position key l cursor)

variable {key l} {cursor : Option κ}

variable (key l cursor) in
theorem upTo_append_after : upTo key l cursor ++ after key l cursor = l := List.take_append_drop ..

theorem Placed.findIdx_lt {k : κ} (h : Placed key l (some k)) : (l.findIdx fun x => key x = k) < l.length := by
  obtain ⟨x, hx, hkey⟩ := h k rfl
  exact List.findIdx_lt_length_of_exists ⟨x, hx, decide_eq_true hkey⟩

theorem position_append (h : Placed key l cursor) (m : List α) :
    position key (l ++ m) cursor = position key l cursor := by
  cases cursor with
  | none => rfl
  | some k => rw [position, position, List.findIdx_append, if_pos h.findIdx_lt]

theorem position_le_length (h : Placed key l cursor) : position key l cursor ≤ l.length := by
  cases cursor with
  | none => exact Nat.zero_le _
  | some k => exact h.findIdx_lt

theorem upTo_append (h : Placed key l cursor) (m : List α) : upTo key (l ++ m) cursor = upTo key l cursor := by
  rw [upTo, upTo, position_append h, List.take_append_of_le_length (position_le_length h)]

theorem after_append (h : Placed key l cursor) (m : List α) :
    after key (l ++ m) cursor = after key l cursor ++ m := by
  rw [after, after, position_append h, List.drop_append_of_le_length (position_le_length h)]

/-- The elements up to the last one read. -/
theorem position_eq {xs ys : List α} {x : α} (hl : l = xs ++ x :: ys) (hdistinct : (l.map key).Nodup) :
    position key l (some (key x)) = xs.length + 1 := by
  subst hl
  have hnone : (xs.findIdx fun y => key y = key x) = xs.length := by
    rw [List.findIdx_eq_length]
    intro y hy
    rw [List.map_append, List.map_cons, List.nodup_append] at hdistinct
    exact decide_eq_false (hdistinct.2.2 _ (List.mem_map_of_mem hy) _ List.mem_cons_self)
  rw [position, List.findIdx_append, hnone, if_neg (Nat.lt_irrefl _),
    List.findIdx_cons, decide_eq_true rfl, cond_true, Nat.zero_add]

variable {page rest : List α}

/-- A page that is read is among what has been read from then on. -/
theorem upTo_next (hdistinct : (l.map key).Nodup) (h : after key l cursor = page ++ rest) :
    upTo key l (next key cursor page) = upTo key l cursor ++ page := by
  rcases List.eq_nil_or_concat page with rfl | ⟨zs, z, rfl⟩
  · exact (List.append_nil _).symm
  · have hl : l = (upTo key l cursor ++ zs) ++ z :: rest := by
      rw [List.append_assoc, ← List.concat_append, ← h, upTo_append_after]
    have hnext : next key cursor (zs.concat z) = some (key z) := by
      rw [next, List.concat_eq_append, List.getLast?_concat]
      rfl
    rw [hnext]
    calc upTo key l (some (key z))
        = ((upTo key l cursor ++ zs) ++ z :: rest).take ((upTo key l cursor ++ zs).length + 1) := by
          rw [upTo, position_eq hl hdistinct, ← hl]
      _ = upTo key l cursor ++ zs.concat z := by
          rw [List.take_length_add_append, List.take_succ_cons, List.take_zero, List.append_assoc,
            List.concat_eq_append]

theorem after_next (hdistinct : (l.map key).Nodup) (h : after key l cursor = page ++ rest) :
    after key l (next key cursor page) = rest := by
  have hall : upTo key l cursor ++ page ++ after key l (next key cursor page) = upTo key l cursor ++ page ++ rest := by
    rw [← upTo_next hdistinct h, upTo_append_after, upTo_next hdistinct h, List.append_assoc, ← h,
      upTo_append_after]
  exact List.append_cancel_left hall

theorem Placed.next (hcursor : Placed key l cursor) (h : after key l cursor = page ++ rest) :
    Placed key l (next key cursor page) := by
  rcases List.eq_nil_or_concat page with rfl | ⟨zs, z, rfl⟩
  · exact hcursor
  · rintro k hk
    rw [Concurrent.next, List.concat_eq_append, List.getLast?_concat] at hk
    refine ⟨z, ?_, Option.some_inj.1 hk⟩
    rw [← upTo_append_after key l cursor, h, List.concat_eq_append]
    exact List.mem_append_right _ (List.mem_append_left _ (List.mem_append_right _ (List.mem_singleton_self z)))

/-- In a list with ascending keys, what is left after a page are the elements with greater keys than the
    last one of the page. -/
theorem drop_eq_filter {α κ : Type*} [Preorder κ] [DecidableLT κ] {key : α → κ} {l : List α}
    (hl : l.Pairwise fun x y => key x < key y) {n : ℕ} {x : α} (hx : (l.take n).getLast? = some x) :
    l.drop n = l.filter fun y => key x < key y := by
  obtain ⟨zs, hzs⟩ := List.getLast?_eq_some_iff.1 hx
  have happend : l = (zs ++ [x]) ++ l.drop n := by rw [← hzs, List.take_append_drop]
  generalize l.drop n = rest at happend
  subst happend
  obtain ⟨hpage, _, hcross⟩ := List.pairwise_append.1 hl
  have hread : (zs ++ [x]).filter (fun y => key x < key y) = [] := by
    refine List.filter_eq_nil_iff.2 fun y hy => ?_
    rw [decide_eq_true_iff]
    rcases List.mem_append.1 hy with hy | hy
    · exact lt_asymm ((List.pairwise_append.1 hpage).2.2 y hy x (List.mem_singleton_self x))
    · rw [List.mem_singleton.1 hy]
      exact lt_irrefl (key x)
  have hleft : rest.filter (fun y => key x < key y) = rest :=
    List.filter_eq_self.2 fun y hy => decide_eq_true (hcross x (by simp) y hy)
  rw [List.filter_append, hread, hleft, List.nil_append]

/-- If what is found under a key has this key, it is the only one of what is found that has it. -/
theorem filter_filterMap_key {α κ : Type*} [DecidableEq κ] {key : α → κ} {find : κ → Option α}
    (hfind : ∀ k x, find k = some x → key x = k) {ks : List κ} (hks : ks.Nodup) {k : κ} (hk : k ∈ ks) :
    (ks.filterMap find).filter (fun x => key x = k) = (find k).toList := by
  induction ks with
  | nil => exact absurd hk List.not_mem_nil
  | cons j ks ih =>
    obtain ⟨hj, hks⟩ := List.nodup_cons.1 hks
    have hhead : (ks.filterMap find).filter (fun x => key x = j) = [] := by
      refine List.filter_eq_nil_iff.2 fun x hx hkey => hj ?_
      obtain ⟨i, hi, hfound⟩ := List.mem_filterMap.1 hx
      rwa [← of_decide_eq_true hkey, hfind i x hfound]
    rcases eq_or_ne k j with rfl | hne
    · cases hfound : find k with
      | none => rw [List.filterMap_cons_none hfound, hhead, Option.toList_none]
      | some x =>
        rw [List.filterMap_cons_some hfound, List.filter_cons_of_pos, hhead, Option.toList_some]
        exact decide_eq_true (hfind k x hfound)
    · have htail := ih hks ((List.mem_cons.1 hk).resolve_left hne)
      cases hfound : find j with
      | none => rwa [List.filterMap_cons_none hfound]
      | some x =>
        rw [List.filterMap_cons_some hfound, List.filter_cons_of_neg, htail]
        rw [decide_eq_true_iff, hfind j x hfound]
        exact hne.symm

end Concurrent
