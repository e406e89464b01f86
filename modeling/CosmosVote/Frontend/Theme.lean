import CosmosVote.Concurrent.Echo

/-!
# The theme in several tabs

The frontend keeps its theme in `localStorage` (`useTheme`): a tab that shows another theme than before stores it,
and the other tabs are told by a storage event if what is stored has changed. They then show that theme, and
store it as well.

* `tabs_agree`: tabs at rest show the stored theme, if the user never changes the theme of a tab between a storage
  event and the next rendering;
* `tabs_flicker`: but two tabs need not come to rest, and can exchange their themes forever.
-/

namespace CosmosVote.Frontend

open Soroban Concurrent

inductive Theme
  | light
  | dark
  deriving DecidableEq

def Theme.name : Theme → String
  | .light => "light"
  | .dark => "dark"

/-- Any other text counts as none. -/
def readTheme (text : Option String) : Option Theme :=
  if text = some "light" then some .light else if text = some "dark" then some .dark else none

def systemTheme (prefersDark : Bool) : Theme := if prefersDark then .dark else .light

def resolveInitialTheme (stored : Option String) (prefersDark : Bool) : Theme :=
  (readTheme stored).getD (systemTheme prefersDark)

def Theme.toggle : Theme → Theme
  | .dark => .light
  | .light => .dark

/-- What is stored, and what each tab shows. Nothing else is stored under the key than the name of a theme. -/
abbrev Tabs (π : Type*) := Echo π Theme

inductive TabEvent (π : Type*)
  | mount (tab : π) (prefersDark : Bool)
  | unmount (tab : π)
  /-- The new theme is given, or made from the one before. -/
  | setTheme (tab : π) (value : Theme ⊕ (Theme → Theme))
  | toggleTheme (tab : π)
  /-- A storage event arrives. -/
  | storage (tab : π)
  | render (tab : π)
  /-- The effect after a rendering: the theme is applied and stored. -/
  | effect (tab : π)

variable {π : Type*}

def TabEvent.move : TabEvent π → Move π Theme
  | .mount tab prefersDark => .join tab (systemTheme prefersDark)
  | .unmount tab => .leave tab
  | .setTheme tab (.inl theme) => .update tab fun _ => theme
  | .setTheme tab (.inr f) => .update tab f
  | .toggleTheme tab => .update tab Theme.toggle
  | .storage tab => .deliver tab
  | .render tab => .render tab
  | .effect tab => .write tab

theorem readTheme_name (theme : Theme) : readTheme (some theme.name) = some theme := by cases theme <;> decide

section

variable [DecidableEq π]

/-- A tab begins with the theme that is stored, or with that of the system. -/
theorem step_mount {s : Tabs π} {tab : π} (h : s.copies tab = none) (prefersDark : Bool) :
    (s.step (TabEvent.mount tab prefersDark).move).copies tab =
      some ⟨resolveInitialTheme (s.register.map Theme.name) prefersDark, none, [], []⟩ := by
  have hread : readTheme (s.register.map Theme.name) = s.register := by
    cases s.register with
    | none => rfl
    | some theme => exact readTheme_name theme
  rw [resolveInitialTheme, hread, TabEvent.move, Echo.step, h]
  exact Echo.copies_setCopy_self _

namespace Tabs

def after (stored : Option String) (es : List (TabEvent π)) : Tabs π :=
  run Echo.step (.init (readTheme stored)) (es.map TabEvent.move)

/-- The user never changes the theme of a tab that has not been rendered since a storage event. -/
def Prompt (stored : Option String) (es : List (TabEvent π)) : Prop :=
  Along Echo.step Echo.Prompt (.init (readTheme stored)) (es.map TabEvent.move)

def Shows (s : Tabs π) (tab : π) (theme : Theme) : Prop := (s.copies tab).map Copy.value = some theme

theorem after_append (stored : Option String) (xs ys : List (TabEvent π)) :
    after stored (xs ++ ys) = run Echo.step (after stored xs) (ys.map TabEvent.move) := by
  rw [after, List.map_append, run_append, after]

theorem Prompt.append {stored : Option String} {xs ys : List (TabEvent π)} (hxs : Prompt stored xs)
    (hys : Along Echo.step Echo.Prompt (after stored xs) (ys.map TabEvent.move)) : Prompt stored (xs ++ ys) := by
  rw [Prompt, List.map_append]
  exact Along.append hxs hys

end Tabs

/-- Tabs are opened and closed, and their themes changed, in any way, and what they tell each other arrives in any
    way. If the user never changes the theme of a tab between a storage event and the next rendering, all tabs at
    rest show the stored theme. -/
theorem tabs_agree {stored : Option String} {es : List (TabEvent π)} (hes : Tabs.Prompt stored es) {p q : π}
    {c d : Copy Theme} (hc : (Tabs.after stored es).copies p = some c) (hd : (Tabs.after stored es).copies q = some d)
    (hp : c.AtRest) (hq : d.AtRest) : (Tabs.after stored es).register = some c.value ∧ c.value = d.value := by
  have hstored := Echo.run_kept hes hc hp
  have hother := Echo.run_kept hes hd hq
  exact ⟨hstored, Option.some_inj.1 (hstored.symm.trans hother)⟩

/-! ## Two tabs -/

/-- A storage event arrives, and the tab shows its theme, and stores it. -/
def takingOver (tab : π) : List (TabEvent π) := [.storage tab, .render tab, .effect tab]

def toggling (tab : π) : List (TabEvent π) := [.toggleTheme tab, .render tab, .effect tab]

def openedTabs (p q : π) : List (TabEvent π) := [.mount p false, .effect p, .mount q false, .effect q]

theorem after_openedTabs {p q : π} (hpq : p ≠ q) : Tabs.after none (openedTabs p q) =
    Echo.pair p q .light ⟨.light, some .light, [], []⟩ ⟨.light, some .light, [], []⟩ := Echo.run_joins hpq Theme.light

theorem prompt_openedTabs (p q : π) : Tabs.Prompt none (openedTabs p q) :=
  .cons trivial (.cons trivial (.cons trivial (.cons trivial along_nil)))

/-- The user switches to the dark theme in the second tab, and the first one hears of it. -/
def switched : List (TabEvent Bool) := openedTabs false true ++ toggling true ++ takingOver false

theorem prompt_switched : Tabs.Prompt none switched := by
  refine ((prompt_openedTabs false true).append ?_).append (.cons trivial (.cons trivial (.cons trivial along_nil)))
  rw [after_openedTabs (by decide), Echo.pair_comm (by decide)]
  exact Echo.along_change rfl

theorem tabs_agree_switched : ∃ c d, (Tabs.after none switched).copies false = some c ∧
    (Tabs.after none switched).copies true = some d ∧ c.value = .dark ∧ c.value = d.value :=
  ⟨⟨.dark, some .dark, [], []⟩, ⟨.dark, some .dark, [], []⟩, rfl, rfl, rfl,
    (tabs_agree prompt_switched (p := false) (q := true) rfl rfl ⟨rfl, rfl, rfl⟩ ⟨rfl, rfl, rfl⟩).2⟩

/-- A tab that hears of the dark theme, and is toggled before it is rendered, shows the light one as before, and does
    not store it. -/
theorem tabs_disagree : (Tabs.after none (openedTabs false true ++ toggling true ++
      [.storage false, .toggleTheme false, .render false, .effect false])) =
    Echo.pair false true .dark ⟨.light, some .light, [], []⟩ ⟨.dark, some .dark, [], []⟩ := by
  refine Echo.ext rfl (funext fun tab => ?_)
  cases tab <;> rfl

/-- Two tabs are opened. The user switches to the dark theme in the one, and in the other there and back. -/
def opposing (p q : π) : List (TabEvent π) := openedTabs p q ++ (toggling q ++ toggling p ++ toggling p)

/-- The tabs take over what they hear, first the one and then the other, and once more the other way round. -/
def flicker (p q : π) : List (TabEvent π) := takingOver p ++ takingOver q ++ (takingOver q ++ takingOver p)

theorem after_opposing {p q : π} (hpq : p ≠ q) :
    Tabs.after none (opposing p q) = Echo.exchange p q .light .dark ∧ Tabs.Prompt none (opposing p q) := by
  obtain ⟨hrun, hprompt⟩ := Echo.run_changes hpq (a := Theme.light) (b := .dark) (by decide) (f := Theme.toggle) rfl rfl
  rw [← after_openedTabs hpq] at hrun hprompt
  refine ⟨?_, (prompt_openedTabs p q).append hprompt⟩
  rw [opposing, Tabs.after_append]
  exact hrun

/-- For any two tabs, the user may so change their themes that the tabs, left to themselves, need never come to rest,
    though no storage event is left out: again and again, each shows what the other has shown. -/
theorem tabs_flicker {p q : π} (hpq : p ≠ q) :
    Tabs.Prompt none (opposing p q) ∧ ∀ n,
      let es := opposing p q ++ (List.replicate n (flicker p q)).flatten
      (Tabs.after none es).Shows p .light ∧ (Tabs.after none es).Shows q .dark ∧
        (Tabs.after none (es ++ (takingOver p ++ takingOver q))).Shows p .dark ∧
        (Tabs.after none (es ++ (takingOver p ++ takingOver q))).Shows q .light := by
  have hne : Theme.light ≠ .dark := by decide
  obtain ⟨hrun, hprompt⟩ := after_opposing hpq
  refine ⟨hprompt, fun n => ?_⟩
  have hagain : Tabs.after none (opposing p q ++ (List.replicate n (flicker p q)).flatten) =
      Echo.exchange p q .light .dark := by
    rw [Tabs.after_append, hrun, List.map_flatten, List.map_replicate]
    exact Echo.run_exchanges hpq hne n
  have hhalf : Tabs.after none (opposing p q ++ (List.replicate n (flicker p q)).flatten ++
      (takingOver p ++ takingOver q)) = Echo.exchange q p .light .dark := by
    rw [Tabs.after_append, hagain]
    exact Echo.run_exchange hpq hne
  have hleft {a b : π} (s : Tabs π) (h : s = Echo.exchange a b .light .dark) : s.Shows a .light := by
    rw [h]
    exact congrArg (Option.map Copy.value) Echo.copies_pair_left
  have hright {a b : π} (s : Tabs π) (h : s = Echo.exchange a b .light .dark) (hab : a ≠ b) : s.Shows b .dark := by
    rw [h]
    exact congrArg (Option.map Copy.value) (Echo.copies_pair_right hab)
  exact ⟨hleft _ hagain, hright _ hagain hpq, hright _ hhalf hpq.symm, hleft _ hhalf⟩

theorem tabs_flicker_two :
    let es := opposing false true ++ (List.replicate 2 (flicker false true)).flatten
    (Tabs.after none es).Shows false .light ∧
      (Tabs.after none (es ++ (takingOver false ++ takingOver true))).Shows false .dark := by
  obtain ⟨hlight, _, hdark, _⟩ := (tabs_flicker (p := false) (q := true) (by decide)).2 2
  exact ⟨hlight, hdark⟩

end

end CosmosVote.Frontend
