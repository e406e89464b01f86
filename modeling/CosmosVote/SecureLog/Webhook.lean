import Mathlib.Data.List.Basic
import Mathlib.Tactic.Common

/-!
# Webhook URLs in the log

What the notification crate writes to its log of a webhook URL: it splits the URL at the first `/` after the
scheme, and leaves out what is behind it.

* `sanitise_webhook_url_iff`: of which URLs nothing but the scheme, the host and the port is left.
-/

namespace CosmosVote.SecureLog

inductive Scheme
  | http
  | https
  deriving DecidableEq

def Scheme.text : Scheme → List Char
  | .http => "http".toList
  | .https => "https".toList

/-- A URL with its parts, none of which has a delimiter in it that would end it. -/
structure Url where
  scheme : Scheme
  userinfo : Option (List Char)
  host : List Char
  port : Option (List Char)
  path : List Char
  query : Option (List Char)
  fragment : Option (List Char)
  userinfo_chars : ∀ u, userinfo = some u → ∀ c ∈ u, c ∉ ['/', '?', '#', '@']
  host_chars : ∀ c ∈ host, c ∉ ['/', '?', '#', '@']
  port_chars : ∀ p, port = some p → ∀ c ∈ p, c.isDigit = true
  path_chars : ∀ c ∈ path, c ∉ ['?', '#']
  path_start : path = [] ∨ ∃ rest, path = '/' :: rest
  query_chars : ∀ q, query = some q → '#' ∉ q

namespace Url

variable (u : Url)

/-- A part that may be missing, with the delimiter before it. -/
def after (delimiter : Char) (part : Option (List Char)) : List Char := (part.map (delimiter :: ·)).getD []

/-- `[userinfo '@']` -/
def userinfoText : List Char := (u.userinfo.map (· ++ ['@'])).getD []

/-- `host [':' port]` -/
def hostPort : List Char := u.host ++ after ':' u.port

/-- `['?' query] ['#' fragment]` -/
def tail : List Char := after '?' u.query ++ after '#' u.fragment

/-- The text of the URL. -/
def text : List Char :=
  u.scheme.text ++ "://".toList ++ (u.userinfoText ++ u.hostPort ++ u.path ++ u.tail)

/-- `scheme '://' host [':' port]` -/
def origin : List Char := u.scheme.text ++ "://".toList ++ u.hostPort

end Url

/-- `s.strip_prefix(p)` -/
def stripPrefix (p s : List Char) : Option (List Char) := if p <+: s then some (s.drop p.length) else none

def sanitiseWebhookUrl (url : List Char) : List Char :=
  match (stripPrefix "https://".toList url).or (stripPrefix "http://".toList url) with
  | some rest =>
    let host := rest.takeWhile fun c => c ≠ '/'
    let scheme := if "https://".toList <+: url then "https".toList else "http".toList
    scheme ++ "://".toList ++ host
  | none => url

theorem stripPrefix_append (p s : List Char) : stripPrefix p (p ++ s) = some s := by
  rw [stripPrefix, if_pos (List.prefix_append p s), List.drop_left]

/-- What is left of a URL is what comes before the first `/` after the scheme. -/
theorem sanitiseWebhookUrl_scheme (scheme : Scheme) (rest : List Char) :
    sanitiseWebhookUrl (scheme.text ++ "://".toList ++ rest) =
      scheme.text ++ "://".toList ++ rest.takeWhile fun c => c ≠ '/' := by
  rw [sanitiseWebhookUrl]
  cases scheme with
  | http =>
    have hnot : ¬"https://".toList <+: Scheme.http.text ++ "://".toList ++ rest := by
      change ¬"https://".toList <+: "http".toList ++ "://".toList ++ rest
      simp
    have hstrip : stripPrefix "http://".toList (Scheme.http.text ++ "://".toList ++ rest) = some rest :=
      stripPrefix_append "http://".toList rest
    rw [stripPrefix, if_neg hnot, hstrip, Option.none_or]
    simp only [if_neg hnot]
    rfl
  | https =>
    have hstrip : stripPrefix "https://".toList (Scheme.https.text ++ "://".toList ++ rest) = some rest :=
      stripPrefix_append "https://".toList rest
    have hprefix : "https://".toList <+: Scheme.https.text ++ "://".toList ++ rest :=
      List.prefix_append "https://".toList rest
    rw [hstrip, Option.some_or]
    simp only [if_pos hprefix]
    rfl

namespace Url

variable (u : Url)

theorem mem_after {delimiter c : Char} {part : Option (List Char)} (h : c ∈ after delimiter part) :
    c = delimiter ∨ ∃ p, part = some p ∧ c ∈ p := by
  cases part with
  | none => exact absurd h List.not_mem_nil
  | some p => exact (List.mem_cons.1 h).imp_right fun hc => ⟨p, rfl, hc⟩

/-- There is no `/` before the path. -/
theorem ne_of_mem_authority {c : Char} (hc : c ∈ u.userinfoText ++ u.hostPort) : c ≠ '/' := by
  rintro rfl
  rcases List.mem_append.1 hc with hc | hc
  · rw [userinfoText] at hc
    cases hu : u.userinfo with
    | none =>
      rw [hu] at hc
      exact List.not_mem_nil hc
    | some info =>
      rw [hu] at hc
      rcases List.mem_append.1 hc with hc | hc
      · exact u.userinfo_chars info hu _ hc (by decide)
      · exact absurd (List.mem_singleton.1 hc) (by decide)
  · rcases List.mem_append.1 hc with hc | hc
    · exact u.host_chars _ hc (by decide)
    · rcases mem_after hc with hc | ⟨p, hp, hc⟩
      · exact absurd hc (by decide)
      · exact absurd (u.port_chars p hp _ hc) (by decide)

/-- Without a path, the query and the fragment are not cut off. -/
theorem takeWhile_eq_nil_iff :
    (u.path ++ u.tail).takeWhile (fun c => c ≠ '/') = [] ↔
      u.path ≠ [] ∨ u.query = none ∧ u.fragment = none := by
  rcases u.path_start with hpath | ⟨rest, hpath⟩
  · rw [hpath, List.nil_append, tail]
    cases u.query with
    | some q => simp [after]
    | none =>
      cases u.fragment with
      | some f => simp [after]
      | none => simp [after]
  · simp [hpath]

theorem userinfoText_eq_nil_iff : u.userinfoText = [] ↔ u.userinfo = none := by
  rw [userinfoText]
  cases u.userinfo <;> simp

end Url

/-- Of a URL, exactly the scheme, the host and the port are left if and only if there is no userinfo, and if there
    is a path or neither a query nor a fragment. -/
theorem sanitise_webhook_url_iff (u : Url) :
    sanitiseWebhookUrl u.text = u.origin ↔
      u.userinfo = none ∧ (u.path ≠ [] ∨ u.query = none ∧ u.fragment = none) := by
  have hsplit : (u.userinfoText ++ u.hostPort ++ u.path ++ u.tail).takeWhile (fun c => c ≠ '/') =
      u.userinfoText ++ u.hostPort ++ (u.path ++ u.tail).takeWhile fun c => c ≠ '/' := by
    rw [List.append_assoc _ u.path, List.takeWhile_append_of_pos]
    exact fun c hc => decide_eq_true (u.ne_of_mem_authority hc)
  rw [Url.text, sanitiseWebhookUrl_scheme, hsplit, Url.origin, List.append_cancel_left_eq, ← u.userinfoText_eq_nil_iff,
    ← u.takeWhile_eq_nil_iff]
  constructor
  · intro h
    have hlength := congrArg List.length h
    simp only [List.length_append] at hlength
    exact ⟨List.length_eq_zero_iff.1 (by omega), List.length_eq_zero_iff.1 (by omega)⟩
  · rintro ⟨huser, htail⟩
    rw [huser, htail, List.nil_append, List.append_nil]

/-- A webhook without a path, with a token in its query. -/
def tokenUrl : Url where
  scheme := .https
  userinfo := none
  host := "hooks.example.com".toList
  port := none
  path := []
  query := some "token=secret".toList
  fragment := none
  userinfo_chars := by simp
  host_chars := by simp
  port_chars := by simp
  path_chars := by simp
  path_start := .inl rfl
  query_chars := by simp

/-- The token is logged. -/
theorem sanitise_webhook_url_leaks :
    tokenUrl.text = "https://hooks.example.com?token=secret".toList ∧
      sanitiseWebhookUrl tokenUrl.text = "https://hooks.example.com?token=secret".toList ∧
      tokenUrl.origin = "https://hooks.example.com".toList := by
  refine ⟨by decide, by decide, by decide⟩

end CosmosVote.SecureLog
