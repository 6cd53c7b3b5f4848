import Ohara.Engine.Registry

/-!
# Registry files as JSON text

The compact JSON that is written for a registry file, with a reader for exactly this text.
-/

namespace Ohara

namespace Registry

open WireFormat

/-- The field `pid`. -/
def pidFormat : WireFormat UInt8 Nat :=
    after (ascii "\x7b\"pid\":".toList) (number 44 (by decide))

/-- The field `socket_path`. -/
def socketPathFormat : WireFormat UInt8 String :=
    after (ascii "\"socket_path\":\"".toList) quoted

/-- The field `ohara_version`. -/
def oharaVersionFormat : WireFormat UInt8 String :=
    after (ascii ",\"ohara_version\":\"".toList) quoted

/-- A string with its opening quote. -/
def stringFormat : WireFormat UInt8 String := after (ascii "\"".toList) quoted

theorem null_apart (text : String) (rest : Bytes) :
    ¬ ascii "null".toList <+: stringFormat.write text ++ rest := by
  rintro ⟨tail, same⟩
  have first : (110 : UInt8) = 34 := Option.some.inj (congrArg List.head? same)
  exact absurd first (by decide)

/-- The field `ohara_git_sha`. -/
def oharaGitShaFormat : WireFormat UInt8 (Option String) :=
    after (ascii ",\"ohara_git_sha\":".toList) (orText (ascii "null".toList) stringFormat null_apart)

/-- The field `started_at_unix`. -/
def startedAtFormat : WireFormat UInt8 Nat :=
    after (ascii ",\"started_at_unix\":".toList) (number 44 (by decide))

/-- The field `last_health_unix`, which ends the record. -/
def lastHealthFormat : WireFormat UInt8 Nat :=
    after (ascii "\"last_health_unix\":".toList) (number 125 (by decide))

/-- A record of the list. -/
def recordFormat : WireFormat UInt8 DaemonRecord :=
    (pidFormat.pair <| socketPathFormat.pair <| oharaVersionFormat.pair <|
      oharaGitShaFormat.pair <| startedAtFormat.pair lastHealthFormat).encoded
      (fun r => (r.pid, r.socketPath, r.oharaVersion, r.oharaGitSha, r.startedAtUnix,
        r.lastHealthUnix))
      (fun fields => some ⟨fields.1, fields.2.1, fields.2.2.1, fields.2.2.2.1, fields.2.2.2.2.1,
        fields.2.2.2.2.2⟩)
      (fun _ => rfl)

theorem recordFormat_starts (r : DaemonRecord) :
    ∃ symbol rest, symbol ≠ (93 : UInt8) ∧ recordFormat.write r = symbol :: rest :=
  ⟨123, _, by decide, rfl⟩

/-- The object with the list of records. -/
def fileFormat : WireFormat UInt8 (List DaemonRecord) :=
    (after (ascii "\x7b\"daemons\":[".toList)
      (separated recordFormat (show (44 : UInt8) ≠ 93 by decide) recordFormat_starts)).closed
      (ascii "\x7d".toList)

/-- The JSON library, on the text it writes. -/
def compactJson : Json where
  toVec rf := fileFormat.write rf.daemons
  fromStr contents :=
    match fileFormat.decode contents with
    | some daemons => .ok ⟨daemons⟩
    | none => .error (.json "EOF while parsing")
  fromStr_toVec rf := by rw [fileFormat.decode_write]
  toVec_empty := by decide
  fromStr_take rf n cut := by
    rw [fileFormat.decode_take _ cut]
    exact ⟨_, rfl⟩

example : compactJson.toVec ⟨[⟨7, "/tmp/o.sock", "0.7.4", some "abc", 1, 2⟩]⟩ =
    ascii ("\x7b\"daemons\":[\x7b\"pid\":7,\"socket_path\":\"/tmp/o.sock\"," ++
      "\"ohara_version\":\"0.7.4\",\"ohara_git_sha\":\"abc\",\"started_at_unix\":1," ++
      "\"last_health_unix\":2\x7d]\x7d").toList := by
  decide +kernel

end Registry

end Ohara
