import FastBackup.Core.Backup
import Mathlib.Algebra.Group.Nat.Defs

namespace FastBackup
set_option autoImplicit true

/-- `serde_json::Value`. A number is its text and, where it is one, its value as a `u64`. -/
inductive Json where
  | null
  | bool (b : Bool)
  | num (u64 : Option Nat) (text : String)
  | str (s : String)
  | arr (elems : List Json)
  | obj (fields : List (String × Json))

/-- `value[key]`, which is null for a missing key or another kind of value. -/
def Json.field (value : Json) (key : String) : Json :=
  match value with
  | .obj fields => (fields.lookup key).getD .null
  | _ => .null

def Json.elem (value : Json) (i : Nat) : Json :=
  match value with
  | .arr elems => elems.getD i .null
  | _ => .null

def Json.asU64 : Json → Option Nat
  | .num u64 _ => u64
  | _ => none

def Json.asStr : Json → Option String
  | .str s => some s
  | _ => none

def hexDigit (n : Nat) : Char := "0123456789abcdef".toList.getD n '0'

def escapeJson (c : Char) : String :=
  if c = '"' then "\\\""
  else if c = '\\' then "\\\\"
  else if c.toNat = 8 then "\\b"
  else if c.toNat = 9 then "\\t"
  else if c.toNat = 10 then "\\n"
  else if c.toNat = 12 then "\\f"
  else if c.toNat = 13 then "\\r"
  else if c.toNat < 32 then
    "\\u00" ++ String.ofList [hexDigit (c.toNat / 16), hexDigit (c.toNat % 16)]
  else String.ofList [c]

def quoteJson (s : String) : String := "\"" ++ String.join (s.toList.map escapeJson) ++ "\""

mutual
/-- The compact text of a value. -/
def Json.text : Json → String
  | .null => "null"
  | .bool b => if b then "true" else "false"
  | .num _ text => text
  | .str s => quoteJson s
  | .arr elems => "[" ++ ",".intercalate (Json.texts elems) ++ "]"
  | .obj fields => "\x7b" ++ ",".intercalate (Json.fieldTexts fields) ++ "\x7d"

def Json.texts : List Json → List String
  | [] => []
  | value :: values => value.text :: Json.texts values

def Json.fieldTexts : List (String × Json) → List String
  | [] => []
  | (key, value) :: fields => (quoteJson key ++ ":" ++ value.text) :: Json.fieldTexts fields
end

/-- `google_drive3::Error`; the variants `classify` does not look into are their text. -/
inductive DriveError where
  | httpError (text : String)
  | io (text : String)
  | missingToken (text : String)
  | badRequest (body : Json)
  | failure (status : Nat)
  | other (text : String)

inductive CallError where
  | transient (msg : String)
  | badRequest (msg : String)
  | permanent (err : Error)

def CallError.intoError : CallError → Error
  | .transient msg => .unavailable msg
  | .badRequest msg => .storage msg
  | .permanent err => err

def rateLimitReasons : List String := ["rateLimitExceeded", "userRateLimitExceeded"]

def classifyStatus (op : String) (status : Nat) (reason : Option String) (detail : String) :
    CallError :=
  let msg := op ++ ": HTTP " ++ toString status ++ ": " ++ detail
  if status = 400 then .badRequest msg
  else if status = 404 then .permanent (.notFound msg)
  else if status = 429 ∨ 500 ≤ status ∧ status ≤ 599 then .transient msg
  else if status = 403 ∧ ∃ r ∈ reason, r ∈ rateLimitReasons then .transient msg
  else .permanent (.storage msg)

def classifyJson (op : String) (body : Json) : CallError :=
  let error := body.field "error"
  match (error.field "code").asU64.filter (· < 2 ^ 16) with
  | none => .permanent (.storage (op ++ ": " ++ body.text))
  | some status =>
    let reason := (((error.field "errors").elem 0).field "reason").asStr
    let detail := (error.field "message").asStr.getD ""
    classifyStatus op status reason detail

def classify (op : String) : DriveError → CallError
  | .httpError text => .transient (op ++ ": transport error: " ++ text)
  | .io text => .transient (op ++ ": io error: " ++ text)
  | .missingToken text => .transient (op ++ ": token error: " ++ text)
  | .badRequest body => classifyJson op body
  | .failure status => classifyStatus op status none "no details"
  | .other text => .permanent (.storage (op ++ ": " ++ text))

/-- How a call that is bounded in time ends: `none` when its time is up. -/
abbrev Timed (T : Type) := Option (Except DriveError T)

def timed (op : String) (limit : Duration) : Timed T → Except CallError T
  | none => .error (.transient (op ++ " timed out after " ++ debugDuration limit))
  | some (.ok a) => .ok a
  | some (.error e) => .error (classify op e)

@[simp] theorem timed_ok (op : String) (limit : Duration) (r : Timed T) :
    timed op limit r = .ok a ↔ r = some (.ok a) := by
  cases r with
  | none => simp [timed]
  | some r => cases r <;> simp [timed]

/-- The status in the JSON body of an error response. -/
def Json.errorCode (body : Json) : Option Nat :=
  ((body.field "error").field "code").asU64.filter (· < 2 ^ 16)

def Json.errorReason (body : Json) : Option String :=
  ((((body.field "error").field "errors").elem 0).field "reason").asStr

theorem classifyJson_none (hc : body.errorCode = none) :
    classifyJson op body = .permanent (.storage (op ++ ": " ++ body.text)) := by
  rw [Json.errorCode] at hc
  simp only [classifyJson, hc]

theorem classifyJson_some (hc : body.errorCode = some status) :
    classifyJson op body = classifyStatus op status body.errorReason
      (((body.field "error").field "message").asStr.getD "") := by
  rw [Json.errorCode] at hc
  simp only [classifyJson, hc, Json.errorReason]

/-- An error response as `doit` reports it; the body is `none` if it is no JSON. -/
def reported (status : Nat) : Option Json → DriveError
  | some body => .badRequest body
  | none => .failure status

/-- The error is taken for a 404. -/
def DriveError.isMissing : DriveError → Prop
  | .badRequest body => body.errorCode = some 404
  | .failure status => status = 404
  | _ => False

/-- A response that is taken for a 404 exactly if it is one. -/
def HonestStatus (status : Nat) (body : Option Json) : Prop :=
  (reported status body).isMissing ↔ status = 404

theorem classifyStatus_missing :
    (∃ msg, classifyStatus op status reason detail = .permanent (.notFound msg)) ↔
      status = 404 := by
  simp only [classifyStatus]
  split
  · rename_i h400
    simp [h400]
  split
  · rename_i h404
    simp [h404]
  split
  · rename_i h404 _
    simp [h404]
  split
  · rename_i h404 _ _
    simp [h404]
  · rename_i h404 _ _
    simp [h404]

theorem classify_missing (op : String) (e : DriveError) :
    (∃ msg, classify op e = .permanent (.notFound msg)) ↔ e.isMissing := by
  cases e with
  | httpError | io | missingToken | other => simp [classify, DriveError.isMissing]
  | failure status => exact classifyStatus_missing
  | badRequest body =>
    rw [classify, DriveError.isMissing]
    cases hc : body.errorCode with
    | none => simp [classifyJson_none hc]
    | some status => rw [classifyJson_some hc, classifyStatus_missing, Option.some.injEq]

/-- A status that is worth another attempt. -/
def Retryable (status : Nat) (reason : Option String) : Prop :=
  status = 429 ∨ 500 ≤ status ∧ status ≤ 599 ∨
    status = 403 ∧ ∃ r, reason = some r ∧ r ∈ rateLimitReasons

theorem classifyStatus_transient :
    (∃ msg, classifyStatus op status reason detail = .transient msg) ↔
      Retryable status reason := by
  simp only [classifyStatus, Retryable, Option.mem_def, ← or_assoc]
  split
  · rename_i h400
    simp [h400]
  split
  · rename_i h404
    simp [h404]
  split
  · rename_i htrouble
    exact ⟨fun _ => .inl htrouble, fun _ => ⟨_, rfl⟩⟩
  split
  · rename_i hlimit
    exact ⟨fun _ => .inr hlimit, fun _ => ⟨_, rfl⟩⟩
  · rename_i htrouble hlimit
    simp only [reduceCtorEq, exists_false, false_iff]
    exact not_or.2 ⟨htrouble, hlimit⟩

/-- The status never becomes `FailedPrecondition`, nor `Busy`. -/
def CallError.Plain : CallError → Prop
  | .permanent err => (∃ msg, err = .notFound msg) ∨ ∃ msg, err = .storage msg
  | _ => True

theorem classifyStatus_plain (op : String) (status : Nat) (reason : Option String)
    (detail : String) : (classifyStatus op status reason detail).Plain := by
  simp only [classifyStatus]
  split
  · trivial
  split
  · exact .inl ⟨_, rfl⟩
  split
  · trivial
  split
  · trivial
  · exact .inr ⟨_, rfl⟩

theorem classify_plain (op : String) (e : DriveError) : (classify op e).Plain := by
  cases e with
  | httpError | io | missingToken => trivial
  | failure => exact classifyStatus_plain ..
  | other => exact .inr ⟨_, rfl⟩
  | badRequest body =>
    simp only [classify, classifyJson]
    split
    · exact .inr ⟨_, rfl⟩
    · exact classifyStatus_plain ..

end FastBackup
