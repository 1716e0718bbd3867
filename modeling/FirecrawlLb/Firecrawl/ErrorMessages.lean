import FirecrawlLb.Firecrawl.Stored
import FirecrawlLb.Python.Replace

/-!
# Keys in stored error messages

A failed refresh stores the text of its exception without `Bearer ` and with every `fc-` redacted.
The rest of a key is not removed, so a text that contains the key discloses it, unless what is to be
hidden is longer than a stored text or contains another `fc-`.
-/

namespace FirecrawlLb.Firecrawl.ErrorMessages

open FirecrawlLb.Python FirecrawlLb.Db.Models FirecrawlLb.Firecrawl.Schemas
open FirecrawlLb.Firecrawl.Repository FirecrawlLb.Firecrawl.Refresh FirecrawlLb.Firecrawl.System
open FirecrawlLb.Firecrawl.Stored

def keyPrefix : List Char := "fc-".toList

/-- **A text discloses a key**: it contains the key, or the part after the prefix of the key. -/
def Discloses (text key : String) : Prop :=
  key.toList <:+: text.toList ∨
    ∃ rest, rest ≠ [] ∧ key.toList = keyPrefix ++ rest ∧ rest <:+: text.toList

/-- The part of a key that must not be stored. -/
def secretPart (key : String) : List Char :=
  match key.toList with
  | 'f' :: 'c' :: '-' :: c :: rest => c :: rest
  | chars => chars

/-- The secret part of a key is what follows its prefix, or the whole key. -/
theorem secretPart_cases (key : String) :
    (key.toList = keyPrefix ++ secretPart key ∧ secretPart key ≠ []) ∨
      (secretPart key = key.toList ∧ ∀ rest, rest ≠ [] → key.toList ≠ keyPrefix ++ rest) := by
  unfold secretPart
  split
  · rename_i c rest h
    exact Or.inl ⟨h, List.cons_ne_nil _ _⟩
  · rename_i chars hchars
    refine Or.inr ⟨rfl, fun rest hrest h => ?_⟩
    cases rest with
    | nil => exact hrest rfl
    | cons c rest => exact hchars c rest h

theorem secretPart_isInfix (key : String) : secretPart key <:+: key.toList := by
  rcases secretPart_cases key with ⟨h, -⟩ | ⟨h, -⟩
  · rw [h]
    exact List.infix_append_right
  · rw [h]

theorem discloses_iff {text key : String} :
    Discloses text key ↔ secretPart key <:+: text.toList := by
  unfold Discloses
  rcases secretPart_cases key with ⟨h, hne⟩ | ⟨h, hrest⟩
  · constructor
    · rintro (hkey | ⟨rest, -, heq, hrest⟩)
      · exact (secretPart_isInfix key).trans hkey
      · rwa [List.append_cancel_left (h.symm.trans heq)]
    · exact fun htext => Or.inr ⟨_, hne, h, htext⟩
  · rw [h]
    exact or_iff_left fun ⟨rest, hne, heq, _⟩ => hrest rest hne heq

/-! ### What `_safe_error_message` leaves -/

def redaction : List Char := "[redacted]-".toList

theorem safeErrorMessage_toList {failure : Failure} (h : failure.message ≠ "") :
    (safeErrorMessage failure).toList = (replaceChars keyPrefix redaction 0
      (replaceChars "Bearer ".toList [] 0 failure.message.toList)).take 500 := by
  simp only [safeErrorMessage, strReplace, if_neg h, String.toList_ofList]
  rfl

theorem not_keyPrefix_infix (failure : Failure) :
    ¬ keyPrefix <:+: (safeErrorMessage failure).toList := by
  intro h
  unfold safeErrorMessage strReplace at h
  rw [String.toList_ofList, String.toList_ofList] at h
  exact not_infix_replaceChars (by decide) (by decide) 0 _
    (h.trans (List.take_prefix _ _).isInfix)

/-- A text made to leave `secret` behind, with `key` after it. -/
def leakingMessage (secret : List Char) (key : String) : String :=
  String.ofList (disguise 'B' ['e', 'a', 'r', 'e', 'r', ' '] secret ++ ' ' :: key.toList)

theorem leakingMessage_toList (secret : List Char) (key : String) :
    (leakingMessage secret key).toList =
      disguise 'B' ['e', 'a', 'r', 'e', 'r', ' '] secret ++ ' ' :: key.toList :=
  String.toList_ofList

theorem key_infix_leakingMessage (secret : List Char) (key : String) :
    key.toList <:+: (leakingMessage secret key).toList := by
  rw [leakingMessage_toList]
  exact List.infix_append_of_infix_right (List.infix_cons List.infix_rfl)

/-- **A short secret without the prefix is stored.** -/
theorem infix_safeErrorMessage {secret : List Char} (hlen : secret.length ≤ 500)
    (hfree : ¬ keyPrefix <:+: secret) (key className : String) :
    secret <:+: (safeErrorMessage ⟨leakingMessage secret key, className⟩).toList := by
  have hne : leakingMessage secret key ≠ "" := fun h => by
    have hlist := leakingMessage_toList secret key
    rw [h] at hlist
    exact absurd hlist.symm (by simp)
  have hspace : ' ' ∉ keyPrefix := by decide
  rw [safeErrorMessage_toList hne]
  have hbearer : replaceChars "Bearer ".toList [] 0 (leakingMessage secret key).toList =
      secret ++ replaceChars "Bearer ".toList [] 0 (' ' :: key.toList) := by
    rw [leakingMessage_toList]
    exact replaceChars_disguise (show 'B' ≠ 'e' by decide) _ secret
  have hcopy : replaceChars "Bearer ".toList [] 0 (' ' :: key.toList) =
      ' ' :: replaceChars "Bearer ".toList [] 0 key.toList :=
    replaceChars_copy fun h => absurd (List.cons_prefix_cons.1 h).1 (by decide)
  rw [hbearer, hcopy, replaceChars_before hspace _ _ hfree, List.take_append,
    List.take_of_length_le hlen]
  exact List.infix_append_left

/-- **Stored texts never disclose a key**, whatever text contains it, exactly when its secret part
is longer than 500 characters or contains the prefix of keys. -/
theorem never_discloses_iff (request : FirecrawlCredentialCreateRequest) :
    (∀ failure : Failure, request.apiKey.toList <:+: failure.message.toList →
        ¬ Discloses (safeErrorMessage failure) request.apiKey) ↔
      500 < (secretPart request.apiKey).length ∨
        keyPrefix <:+: secretPart request.apiKey := by
  simp only [discloses_iff]
  constructor
  · intro h
    by_contra hnot
    obtain ⟨hlen, hfree⟩ := not_or.1 hnot
    exact h ⟨leakingMessage (secretPart request.apiKey) request.apiKey, "ValueError"⟩
      (key_infix_leakingMessage _ _) (infix_safeErrorMessage (not_lt.1 hlen) hfree _ _)
  · rintro (hlen | hkeyed) failure - htext
    · exact absurd (htext.length_le.trans (length_safeErrorMessage_le failure)) (not_le.2 hlen)
    · exact not_keyPrefix_infix failure (hkeyed.trans htext)

/-- The events of a refresh pass over the sample account whose first request raises. -/
def refreshRaises (tid : ℕ) (failure : Failure) : List Event :=
  [.spawn (.refreshOnce 0), .act tid .selectCredentials,
    .act tid (.refreshAccount (.raised failure) (.raised failure)), .act tid (.commit 0)]

/-- A client that quotes the header it cannot send: the account keeps all of its key but the
prefix. -/
theorem key_disclosed : let env := sampleEnv .sqlite
    let request : FirecrawlCredentialCreateRequest := { id := "credential-1", apiKey := "fc-1" }
    let failure : Failure := ⟨"Illegal header value b'Bearer fc-1'", "LocalProtocolError"⟩
    let p := after env (sampleState .sqlite) (refreshRaises 2 failure)
    Reachable env p ∧ request.apiKey.toList <:+: failure.message.toList ∧
    safeErrorMessage failure = "Illegal header value b'[redacted]-1'" ∧
    (p.store.account? "account-1").bind (·.lastRefreshErrorMessage) =
      some (safeErrorMessage failure) ∧
    Discloses (safeErrorMessage failure) request.apiKey := by
  intro env request failure p
  refine ⟨reachable_after (reachable_sampleState _) _, by decide, by decide, by decide,
    discloses_iff.2 (by decide)⟩

end FirecrawlLb.Firecrawl.ErrorMessages
