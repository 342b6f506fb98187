import BuildReuse.Json.Reader

/-! Reading records. A record is written as an object, whose unknown members are
passed over and whose known ones may stand in any order but only once, or as a
list of the fields in their order, of which trailing ones may be left out. A
draft collects the fields; whether it is complete is asked at the closing
bracket. -/

namespace BuildReuse.Json

structure Field (δ : Type) where
  name : String
  read : δ → Reader δ

def field {δ α : Type} (name : String) (reader : Reader α) (set : δ → α → δ) : Field δ :=
  ⟨name, fun draft input => (reader input).map fun (value, rest) => (set draft value, rest)⟩

structure Record (δ α : Type) where
  fields : List (Field δ)
  draft : δ
  finish : δ → Option α

namespace Record

variable {δ α : Type}

def close (r : Record δ α) (draft : δ) (rest : List Char) : Except Failure (α × List Char) :=
  match r.finish draft with
  | some value => .ok (value, rest)
  | none => .error .malformed

def readMember (r : Record δ α) (seen : List String) (draft : δ) (input : List Char) :
    Except Failure ((List String × δ) × List Char) := do
  let (cs, rest) ← readQuoted input
  let name := String.ofList cs
  match r.fields.find? fun f => f.name == name with
  | some f =>
    if seen.contains name then .error .malformed
    else
      let (draft, rest) ← f.read draft (← readColon rest)
      .ok ((name :: seen, draft), rest)
  | none => .ok ((seen, draft), ← skipValue (← readColon rest))

def readMembers (r : Record δ α) : Nat → List String → δ → List Char → Except Failure (α × List Char)
  | 0, _, _, _ => .error .malformed
  | bound + 1, seen, draft, input =>
    match skipSpace input with
    | [] => .error .truncated
    | '\x7d' :: rest => r.close draft rest
    | ',' :: rest =>
      match skipSpace rest with
      | [] => .error .truncated
      | '"' :: rest => do
        let ((seen, draft), rest) ← r.readMember seen draft rest
        readMembers r bound seen draft rest
      | _ => .error .malformed
    | _ => .error .malformed

def readObject (r : Record δ α) : Reader α := fun text =>
  match skipSpace text with
  | [] => .error .truncated
  | '\x7d' :: rest => r.close r.draft rest
  | '"' :: rest => do
    let ((seen, draft), rest) ← r.readMember [] r.draft rest
    r.readMembers (rest.length + 1) seen draft rest
  | _ => .error .malformed

def readElements (r : Record δ α) : List (Field δ) → δ → List Char → Except Failure (α × List Char)
  | [], draft, input =>
    match skipSpace input with
    | [] => .error .truncated
    | ']' :: rest => r.close draft rest
    | _ => .error .malformed
  | f :: fields, draft, input =>
    match skipSpace input with
    | [] => .error .truncated
    | ']' :: rest => r.close draft rest
    | ',' :: rest =>
      match skipSpace rest with
      | [] => .error .truncated
      | ']' :: _ => .error .malformed
      | input => do
        let (draft, rest) ← f.read draft input
        readElements r fields draft rest
    | _ => .error .malformed

def readSequence (r : Record δ α) : Reader α := fun input =>
  match r.fields with
  | [] => r.readElements [] r.draft input
  | f :: fields =>
    match skipSpace input with
    | [] => .error .truncated
    | ']' :: rest => r.close r.draft rest
    | input => do
      let (draft, rest) ← f.read r.draft input
      r.readElements fields draft rest

def read (r : Record δ α) : Reader α := fun input =>
  match skipSpace input with
  | '\x7b' :: rest => r.readObject rest
  | '[' :: rest => r.readSequence rest
  | input => .error (refusal input)

end Record
end BuildReuse.Json
