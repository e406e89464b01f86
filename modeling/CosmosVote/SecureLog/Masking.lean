import CosmosVote.Soroban.Int
import CosmosVote.Unicode.Length
import CosmosVote.Unicode.Redaction

/-!
# Masks in the log

What the notification crate writes to its log of addresses and transaction hashes: only their ends, with an
ellipsis for the rest. It slices by bytes.

* `maskAddress_eq_some`, `maskTxHash_eq_some`: what is shown, if the slices do not panic;
* `masking_iff`: which texts are masked without a panic and with something hidden, and which entries of the log
  do not show what they are made from.
-/

namespace CosmosVote.SecureLog

open Soroban Unicode Redaction

/-! ## Masking -/

/-- What is shown of a text that is too short. -/
def masked : List Char := "[masked]".toList

/-- `&s[..n]`, which panics inside a character and behind the end. -/
def sliceTo (n : ℕ) (s : List Char) : Option (List Char) := (splitAtByte n s).map Prod.fst

/-- `&s[n..]`, which panics likewise. -/
def sliceFrom (n : ℕ) (s : List Char) : Option (List Char) := (splitAtByte n s).map Prod.snd

/-- It fails if it panics. -/
def maskAddress (addr : List Char) : Option (List Char) :=
  if byteLength addr < 10 then some masked
  else do
    let start ← sliceTo 6 addr
    let stop ← sliceFrom (byteLength addr - 4) addr
    pure (start ++ '…' :: stop)

def maskTxHash (hash : List Char) : Option (List Char) :=
  if byteLength hash < 8 then some masked
  else do
    let start ← sliceTo 8 hash
    pure (start ++ ['…'])

/-! ## Entries -/

structure SafeLogEntry where
  eventId : List Char
  kind : List Char
  maskedActor : Option (List Char)
  proposalId : Option U64

namespace SafeLogEntry

def fromProposalCreated (eventId : List Char) (proposalId : U64) : Option SafeLogEntry := do
  let eventId ← maskTxHash eventId
  pure { eventId, kind := "proposal_created".toList, maskedActor := none, proposalId := some proposalId }

def fromVoteCast (eventId : List Char) (proposalId : U64) (voter : List Char) : Option SafeLogEntry := do
  let eventId ← maskTxHash eventId
  let actor ← maskAddress voter
  pure { eventId, kind := "vote_cast".toList, maskedActor := some actor, proposalId := some proposalId }

def fromProposalFinalised (eventId : List Char) (proposalId : U64) : Option SafeLogEntry := do
  let eventId ← maskTxHash eventId
  pure { eventId, kind := "proposal_finalised".toList, maskedActor := none, proposalId := some proposalId }

/-- The field of a line for the actor. -/
def actorField (e : SafeLogEntry) : List Char := (e.maskedActor.map fun a => " actor=".toList ++ a).getD []

/-- The field of a line for the proposal. -/
def proposalField (e : SafeLogEntry) : List Char :=
  (e.proposalId.map fun p => " proposal_id=".toList ++ (Nat.repr p.val.toNat).toList).getD []

def toLogLine (e : SafeLogEntry) : List Char :=
  "[INFO] event=".toList ++ e.eventId ++ " kind=".toList ++ e.kind ++ e.proposalField ++ e.actorField

/-- What the line has before the field for the actor. -/
def withoutActor (e : SafeLogEntry) : List Char :=
  "[INFO] event=".toList ++ e.eventId ++ " kind=".toList ++ e.kind ++ e.proposalField

end SafeLogEntry

/-- The text is masked: without a panic, and either as a whole or with characters hidden, so that it is not what is
    shown. -/
def MaskedAs (out : Option (List Char)) (s : List Char) : Prop := ∃ o, out = some o ∧ (o = masked ∨ Hides '…' o s)

/-- A text that the slices of `maskAddress` cut at characters, with something between them that is more than an
    ellipsis. -/
def AddressCuts (s : List Char) : Prop :=
  (10 < byteLength s ∧ IsBoundary 6 s ∧ IsBoundary (byteLength s - 4) s) ∧
    ∀ start stop, byteLength start = 6 → byteLength stop = 4 → s ≠ start ++ '…' :: stop

/-- A text that the slice of `maskTxHash` cuts at a character, with something behind it that is more than an
    ellipsis. -/
def HashCuts (s : List Char) : Prop :=
  (8 < byteLength s ∧ IsBoundary 8 s) ∧ ∀ start, byteLength start = 8 → s ≠ start ++ ['…']

/-- The event id is not shown: it is short and no piece of `[masked]`, or it is cut with something left out. -/
def HashUnseen (s : List Char) : Prop := byteLength s < 8 ∧ ¬s <:+: masked ∨ HashCuts s

/-- The address is not shown: it is short and no piece of `[masked]`, or it is cut at characters, and does not
    have an ellipsis where its mask has one. -/
def AddressUnseen (s : List Char) : Prop :=
  byteLength s < 10 ∧ ¬s <:+: masked ∨
    (10 ≤ byteLength s ∧ IsBoundary 6 s ∧ IsBoundary (byteLength s - 4) s) ∧
      (∀ start stop, byteLength start = 6 → byteLength stop = 4 → s ≠ start ++ '…' :: stop) ∧
      ∀ stop, byteLength stop = 4 → s ≠ '…' :: '…' :: stop

/-- The entry is made without a panic, and in its line, neither the field for the event nor the one for the actor
    contains what it is made from. -/
def Conceals (entry : Option SafeLogEntry) (eventId : List Char) : Option (List Char) → Prop
  | none => ∃ e, entry = some e ∧ e.toLogLine = e.withoutActor ∧ ¬eventId <:+: e.eventId
  | some voter => ∃ e actor, entry = some e ∧ e.toLogLine = e.withoutActor ++ (" actor=".toList ++ actor) ∧
      ¬eventId <:+: e.eventId ∧ ¬voter <:+: actor

variable {s out start stop hidden : List Char} {n : ℕ}

theorem sliceTo_eq_some {a : List Char} : sliceTo n s = some a ↔ ∃ b, s = a ++ b ∧ byteLength a = n := by
  rw [sliceTo, Option.map_eq_some_iff]
  constructor
  · rintro ⟨⟨a, b⟩, h, rfl⟩
    exact ⟨b, splitAtByte_eq_some.1 h⟩
  · rintro ⟨b, h⟩
    exact ⟨(a, b), splitAtByte_eq_some.2 h, rfl⟩

theorem sliceFrom_eq_some {b : List Char} : sliceFrom n s = some b ↔ ∃ a, s = a ++ b ∧ byteLength a = n := by
  rw [sliceFrom, Option.map_eq_some_iff]
  constructor
  · rintro ⟨⟨a, b⟩, h, rfl⟩
    exact ⟨a, splitAtByte_eq_some.1 h⟩
  · rintro ⟨a, h⟩
    exact ⟨(a, b), splitAtByte_eq_some.2 h, rfl⟩

theorem ellipsis_notMem_masked : '…' ∉ masked := by decide

/-! ## What is shown -/

/-- The slices of `maskAddress` cut a text in three. -/
theorem address_cut {a b : List Char} (hlong : 10 ≤ byteLength s) (hs : s = start ++ b) (hstart : byteLength start = 6)
    (hs' : s = a ++ stop) (hstop : byteLength a = byteLength s - 4) :
    ∃ hidden, s = start ++ hidden ++ stop ∧ byteLength stop = 4 := by
  obtain ⟨hidden, rfl, _⟩ := exists_between (hs.symm.trans hs') (by omega)
  have hlength := congrArg byteLength hs'
  rw [byteLength_append _ stop] at hlength
  exact ⟨hidden, hs', by omega⟩

theorem maskAddress_eq_some :
    maskAddress s = some out ↔ byteLength s < 10 ∧ out = masked ∨
      ∃ start hidden stop, s = start ++ hidden ++ stop ∧ byteLength start = 6 ∧ byteLength stop = 4 ∧
        out = start ++ '…' :: stop := by
  rw [maskAddress]
  split
  · rename_i hshort
    rw [Option.some_inj, and_iff_right hshort, eq_comm, or_iff_left]
    rintro ⟨start, hidden, stop, rfl, hstart, hstop, _⟩
    simp only [byteLength_append] at hshort
    omega
  · rename_i hlong
    rw [or_iff_right fun h => hlong h.1]
    simp only [Option.bind_eq_bind, Option.bind_eq_some_iff, Option.pure_def, Option.some_inj, sliceTo_eq_some,
      sliceFrom_eq_some]
    constructor
    · rintro ⟨start, ⟨b, hs, hstart⟩, stop, ⟨a, hs', hstop⟩, rfl⟩
      obtain ⟨hidden, hcut, hstop⟩ := address_cut (not_lt.1 hlong) hs hstart hs' hstop
      exact ⟨start, hidden, stop, hcut, hstart, hstop, rfl⟩
    · rintro ⟨start, hidden, stop, rfl, hstart, hstop, rfl⟩
      refine ⟨start, ⟨hidden ++ stop, List.append_assoc .., hstart⟩, stop, ⟨start ++ hidden, rfl, ?_⟩, rfl⟩
      rw [byteLength_append _ stop]
      omega

theorem maskTxHash_eq_some :
    maskTxHash s = some out ↔ byteLength s < 8 ∧ out = masked ∨
      ∃ start hidden, s = start ++ hidden ∧ byteLength start = 8 ∧ out = start ++ ['…'] := by
  rw [maskTxHash]
  split
  · rename_i hshort
    rw [Option.some_inj, and_iff_right hshort, eq_comm, or_iff_left]
    rintro ⟨start, hidden, rfl, hstart, _⟩
    rw [byteLength_append] at hshort
    omega
  · rename_i hlong
    rw [or_iff_right fun h => hlong h.1]
    simp only [Option.bind_eq_bind, Option.bind_eq_some_iff, Option.pure_def, Option.some_inj, sliceTo_eq_some]
    constructor
    · rintro ⟨start, ⟨hidden, hs, hstart⟩, rfl⟩
      exact ⟨start, hidden, hs, hstart, rfl⟩
    · rintro ⟨start, hidden, hs, hstart, rfl⟩
      exact ⟨start, ⟨hidden, hs, hstart⟩, rfl⟩

/-- The texts that are cut in three. -/
theorem addressBounds_iff :
    10 ≤ byteLength s ∧ IsBoundary 6 s ∧ IsBoundary (byteLength s - 4) s ↔
      ∃ start hidden stop, s = start ++ hidden ++ stop ∧ byteLength start = 6 ∧ byteLength stop = 4 := by
  constructor
  · rintro ⟨hlong, ⟨start, b, hs, hstart⟩, a, stop, hs', hstop⟩
    obtain ⟨hidden, hcut⟩ := address_cut hlong hs hstart hs' hstop
    exact ⟨start, hidden, stop, hcut.1, hstart, hcut.2⟩
  · rintro ⟨start, hidden, stop, rfl, hstart, hstop⟩
    refine ⟨?_, ⟨start, hidden ++ stop, List.append_assoc .., hstart⟩, start ++ hidden, stop, rfl, ?_⟩
    · rw [byteLength_append, byteLength_append]
      omega
    · rw [byteLength_append _ stop]
      omega

/-- A text that is cut in three has an ellipsis where its mask has one exactly if that is all in the middle. -/
theorem address_ellipsis_iff (hstart : byteLength start = 6) (hstop : byteLength stop = 4) :
    (∀ start' stop', byteLength start' = 6 → byteLength stop' = 4 → start ++ hidden ++ stop ≠ start' ++ '…' :: stop') ↔
      hidden ≠ ['…'] := by
  constructor
  · rintro hnot rfl
    exact hnot start stop hstart hstop (gap_eq_iff.2 rfl).symm
  · intro hne start' stop' hstart' hstop' heq
    rw [List.append_assoc] at heq
    obtain ⟨rfl, hrest⟩ := append_inj_of_byteLength heq (hstart.trans hstart'.symm)
    have hlength := congrArg byteLength hrest
    rw [byteLength_append, byteLength_cons] at hlength
    have hellipsis : byteLength hidden = byteLength ['…'] := by
      rw [byteLength_cons, byteLength_nil]
      omega
    exact hne (append_inj_of_byteLength (show hidden ++ stop = ['…'] ++ stop' from hrest) hellipsis).1

/-- The texts that are cut in three with something in the middle. -/
theorem addressCuts_iff :
    AddressCuts s ↔ ∃ start hidden stop, s = start ++ hidden ++ stop ∧ byteLength start = 6 ∧ byteLength stop = 4 ∧
      hidden ≠ [] ∧ hidden ≠ ['…'] := by
  constructor
  · rintro ⟨⟨hlong, hbounds⟩, hnot⟩
    obtain ⟨start, hidden, stop, rfl, hstart, hstop⟩ := addressBounds_iff.1 ⟨hlong.le, hbounds⟩
    refine ⟨start, hidden, stop, rfl, hstart, hstop, ?_, (address_ellipsis_iff hstart hstop).1 hnot⟩
    rintro rfl
    rw [List.append_nil, byteLength_append] at hlong
    omega
  · rintro ⟨start, hidden, stop, rfl, hstart, hstop, hne, hellipsis⟩
    refine ⟨⟨?_, (addressBounds_iff.2 ⟨start, hidden, stop, rfl, hstart, hstop⟩).2⟩,
      (address_ellipsis_iff hstart hstop).2 hellipsis⟩
    have hpos : 0 < byteLength hidden := Nat.pos_of_ne_zero fun h => hne (byteLength_eq_zero.1 h)
    rw [byteLength_append, byteLength_append]
    omega

theorem hashCuts_iff :
    HashCuts s ↔ ∃ start hidden, s = start ++ hidden ∧ byteLength start = 8 ∧ hidden ≠ [] ∧ hidden ≠ ['…'] := by
  constructor
  · rintro ⟨⟨hlong, start, hidden, rfl, hstart⟩, hnot⟩
    refine ⟨start, hidden, rfl, hstart, ?_, ?_⟩
    · rintro rfl
      rw [List.append_nil] at hlong
      omega
    · rintro rfl
      exact hnot start hstart rfl
  · rintro ⟨start, hidden, rfl, hstart, hne, hellipsis⟩
    have hpos : 0 < byteLength hidden := Nat.pos_of_ne_zero fun h => hne (byteLength_eq_zero.1 h)
    refine ⟨⟨?_, start, hidden, rfl, hstart⟩, fun start' hstart' heq => ?_⟩
    · rw [byteLength_append]
      omega
    · exact hellipsis (append_inj_of_byteLength heq (hstart.trans hstart'.symm)).2

theorem ellipsis_ne_masked : start ++ '…' :: stop ≠ masked := fun h =>
  ellipsis_notMem_masked (h ▸ List.mem_append_right start List.mem_cons_self)

theorem maskAddress_masked_iff : MaskedAs (maskAddress s) s ↔ byteLength s < 10 ∨ AddressCuts s := by
  rw [MaskedAs, addressCuts_iff]
  constructor
  · rintro ⟨out, hout, hmasked⟩
    rcases maskAddress_eq_some.1 hout with ⟨hshort, _⟩ | ⟨start, hidden, stop, hs, hstart, hstop, rfl⟩
    · exact .inl hshort
    · exact .inr ⟨start, hidden, stop, hs, hstart, hstop, (hides_iff hs).1 (hmasked.resolve_left ellipsis_ne_masked)⟩
  · rintro (hshort | ⟨start, hidden, stop, hs, hstart, hstop, hne⟩)
    · exact ⟨masked, maskAddress_eq_some.2 (.inl ⟨hshort, rfl⟩), .inl rfl⟩
    · exact ⟨_, maskAddress_eq_some.2 (.inr ⟨start, hidden, stop, hs, hstart, hstop, rfl⟩),
        .inr ((hides_iff hs).2 hne)⟩

theorem maskTxHash_masked_iff : MaskedAs (maskTxHash s) s ↔ byteLength s < 8 ∨ HashCuts s := by
  rw [MaskedAs, hashCuts_iff]
  constructor
  · rintro ⟨out, hout, hmasked⟩
    rcases maskTxHash_eq_some.1 hout with ⟨hshort, _⟩ | ⟨start, hidden, hs, hstart, rfl⟩
    · exact .inl hshort
    · have hs' : s = start ++ hidden ++ [] := hs.trans (List.append_nil _).symm
      exact .inr ⟨start, hidden, hs, hstart, (hides_iff hs').1 (hmasked.resolve_left ellipsis_ne_masked)⟩
  · rintro (hshort | ⟨start, hidden, hs, hstart, hne⟩)
    · exact ⟨masked, maskTxHash_eq_some.2 (.inl ⟨hshort, rfl⟩), .inl rfl⟩
    · have hs' : s = start ++ hidden ++ [] := hs.trans (List.append_nil _).symm
      exact ⟨_, maskTxHash_eq_some.2 (.inr ⟨start, hidden, hs, hstart, rfl⟩), .inr ((hides_iff hs').2 hne)⟩

/-! ## What a field contains -/

/-- A text of ellipses has three bytes for each. -/
theorem byteLength_ellipses (h : ∀ y ∈ s, y = '…') : byteLength s = 3 * s.length := by
  induction s with
  | nil => rfl
  | cons c s ih =>
    have hc : c.utf8Size = 3 := by
      rw [h c List.mem_cons_self]
      decide
    rw [byteLength_cons, hc, ih fun y hy => h y (List.mem_cons_of_mem c hy), List.length_cons]
    omega

theorem maskTxHash_unseen_iff : (∃ out, maskTxHash s = some out ∧ ¬s <:+: out) ↔ HashUnseen s := by
  rw [HashUnseen, hashCuts_iff]
  constructor
  · rintro ⟨out, hout, hnot⟩
    rcases maskTxHash_eq_some.1 hout with ⟨hshort, rfl⟩ | ⟨start, hidden, rfl, hstart, rfl⟩
    · exact .inl ⟨hshort, hnot⟩
    · rw [← List.append_nil (start ++ hidden), infix_gap_iff, not_or] at hnot
      exact .inr ⟨start, hidden, rfl, hstart, fun hnil => hnot.2 ⟨hnil, .inr (by simp)⟩, hnot.1⟩
  · rintro (⟨hshort, hnot⟩ | ⟨start, hidden, rfl, hstart, hne, hellipsis⟩)
    · exact ⟨masked, maskTxHash_eq_some.2 (.inl ⟨hshort, rfl⟩), hnot⟩
    · refine ⟨_, maskTxHash_eq_some.2 (.inr ⟨start, hidden, rfl, hstart, rfl⟩), ?_⟩
      rw [← List.append_nil (start ++ hidden), infix_gap_iff]
      rintro (heq | ⟨hnil, _⟩)
      · exact hellipsis heq
      · exact hne hnil

theorem maskAddress_unseen_iff : (∃ out, maskAddress s = some out ∧ ¬s <:+: out) ↔ AddressUnseen s := by
  rw [AddressUnseen, addressBounds_iff]
  constructor
  · rintro ⟨out, hout, hnot⟩
    rcases maskAddress_eq_some.1 hout with ⟨hshort, rfl⟩ | ⟨start, hidden, stop, rfl, hstart, hstop, rfl⟩
    · exact .inl ⟨hshort, hnot⟩
    · rw [infix_gap_iff, not_or] at hnot
      refine .inr ⟨⟨start, hidden, stop, rfl, hstart, hstop⟩, (address_ellipsis_iff hstart hstop).2 hnot.1, ?_⟩
      intro stop' hstop' heq
      rw [List.append_assoc] at heq
      have hsplit : start ++ (hidden ++ stop) = ['…', '…'] ++ stop' := heq
      obtain ⟨rfl, hrest⟩ := append_inj_of_byteLength hsplit (hstart.trans (by decide))
      have hlength := congrArg byteLength hrest
      rw [byteLength_append] at hlength
      exact hnot.2 ⟨byteLength_eq_zero.1 (by omega), .inl (by simp)⟩
  · rintro (⟨hshort, hnot⟩ | ⟨⟨start, hidden, stop, rfl, hstart, hstop⟩, hnot, hnot'⟩)
    · exact ⟨masked, maskAddress_eq_some.2 (.inl ⟨hshort, rfl⟩), hnot⟩
    · refine ⟨_, maskAddress_eq_some.2 (.inr ⟨start, hidden, stop, rfl, hstart, hstop, rfl⟩), ?_⟩
      rw [infix_gap_iff]
      rintro (heq | ⟨rfl, hall | hall⟩)
      · exact (address_ellipsis_iff hstart hstop).1 hnot heq
      · -- Six bytes of ellipses are two of them.
        have hlength := byteLength_ellipses hall
        obtain ⟨x, y, rfl⟩ := List.length_eq_two.1 (show start.length = 2 by omega)
        refine hnot' stop hstop ?_
        rw [hall x (by simp), hall y (by simp)]
        rfl
      · have hlength := byteLength_ellipses hall
        omega

/-- An entry that is made of the event id alone. -/
theorem conceals_event_iff {kind : List Char} {proposalId : Option U64} :
    Conceals ((maskTxHash s).bind fun eventId => some ⟨eventId, kind, none, proposalId⟩) s none ↔ HashUnseen s := by
  rw [← maskTxHash_unseen_iff, Conceals]
  constructor
  · rintro ⟨e, he, _, hnot⟩
    obtain ⟨out, hout, hsome⟩ := Option.bind_eq_some_iff.1 he
    obtain rfl := Option.some_inj.1 hsome
    exact ⟨out, hout, hnot⟩
  · rintro ⟨out, hout, hnot⟩
    exact ⟨_, Option.bind_eq_some_iff.2 ⟨out, hout, rfl⟩, List.append_nil _, hnot⟩

theorem conceals_vote_iff {eventId voter : List Char} {proposalId : U64} :
    Conceals (SafeLogEntry.fromVoteCast eventId proposalId voter) eventId (some voter) ↔
      HashUnseen eventId ∧ AddressUnseen voter := by
  rw [← maskTxHash_unseen_iff, ← maskAddress_unseen_iff, Conceals, SafeLogEntry.fromVoteCast]
  simp only [Option.bind_eq_bind, Option.bind_eq_some_iff, Option.pure_def, Option.some_inj]
  constructor
  · rintro ⟨e, actor, ⟨out, hout, shown, hshown, rfl⟩, hline, hnot, hvoter⟩
    -- The field of the line is the masked voter.
    obtain rfl : shown = actor := List.append_cancel_left (List.append_cancel_left hline)
    exact ⟨⟨out, hout, hnot⟩, shown, hshown, hvoter⟩
  · rintro ⟨⟨out, hout, hnot⟩, actor, hactor, hvoter⟩
    exact ⟨_, actor, ⟨out, hout, actor, hactor, rfl⟩, rfl, hnot, hvoter⟩

end CosmosVote.SecureLog
