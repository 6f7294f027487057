import GantrySftp.Library.RecordLog
import GantrySftp.Session.LogGarbage

/-!
# The journal and the manifest as logs of records

Both state files are logs of written objects. A journal's records are those of paths, sizes and
times that the JSON module reads back; the same holds of a manifest's. Folding a journal or a
manifest of such records makes their changes in order.
-/

namespace GantrySftp

open Library

/-! ## The journal -/

/-- An entry whose local path and numbers are read back from JSON. -/
structure JournalEntry.Fits (entry : JournalEntry) : Prop where
  localPath : Spellable entry.localPath
  localSize : entry.localSize.natAbs < 10 ^ maxIntDigits
  localMtime : entry.localMtime.natAbs < 10 ^ maxIntDigits

/-- A record of the journal: an upload begins staging, or nothing is in flight for a target. -/
inductive JournalRecord
  | staged (entry : JournalEntry) (fits : entry.Fits)
  | published (target : Bytes)

namespace JournalRecord

/-- The members of a record's object. -/
def members : JournalRecord → List (Text × JsonScalar)
  | staged entry _ => recordMembers "staged" (fieldsOf entry)
  | published target => recordMembers "published" [(textOf "target", .string (decodeName target))]

/-- What a record does to the state. -/
def change : JournalRecord → Update Text JournalEntry
  | staged entry _ => { key := decodeName entry.target, value := some entry }
  | published target => { key := decodeName target, value := none }

end JournalRecord

/-- A key of a record is read back. -/
theorem spellable_textOf {name : String}
    (h : ∀ point ∈ textOf name, point < 0x110000 ∧ ¬ IsHighSurrogate point) :
    Spellable (textOf name) :=
  spellable_of_forall h

/-- The members of a journal record are read back. -/
theorem JournalRecord.fits (record : JournalRecord) :
    ∀ member ∈ record.members, MemberFits member := by
  have hversion : (JsonScalar.int journalVersion).Fits := by
    change journalVersion.natAbs < 10 ^ maxIntDigits
    decide +kernel
  cases record with
  | staged entry hentry =>
    intro member hmem
    simp only [members, recordMembers, fieldsOf, List.mem_cons, List.not_mem_nil, or_false] at hmem
    obtain rfl | rfl | rfl | rfl | rfl | rfl | rfl := hmem
    · exact ⟨spellable_textOf (by decide), hversion⟩
    · exact ⟨spellable_textOf (by decide), spellable_textOf (by decide)⟩
    · exact ⟨spellable_textOf (by decide), spellable_decodeUtf8 entry.staged⟩
    · exact ⟨spellable_textOf (by decide), spellable_decodeUtf8 entry.target⟩
    · exact ⟨spellable_textOf (by decide), hentry.localPath⟩
    · exact ⟨spellable_textOf (by decide), hentry.localSize⟩
    · exact ⟨spellable_textOf (by decide), hentry.localMtime⟩
  | published target =>
    intro member hmem
    simp only [members, recordMembers, List.mem_cons, List.not_mem_nil, or_false] at hmem
    obtain rfl | rfl | rfl := hmem
    · exact ⟨spellable_textOf (by decide), hversion⟩
    · exact ⟨spellable_textOf (by decide), spellable_textOf (by decide)⟩
    · exact ⟨spellable_textOf (by decide), spellable_decodeUtf8 target⟩

/-- The object of a journal record begins with its event. -/
theorem JournalRecord.written (record : JournalRecord) : WrittenObject (dumps record.members) where
  written := by
    refine ⟨record.members, ?_, record.fits, rfl⟩
    cases record <;> exact List.cons_ne_nil _ _
  letter := by
    cases record with
    | staged entry hentry => exact ⟨0x65, _, rfl, by decide⟩
    | published target => exact ⟨0x65, _, rfl, by decide⟩

/-- A journal record is read back as what it does to the state. -/
theorem JournalRecord.lineUpdate (record : JournalRecord) :
    lineUpdate (dumps record.members) = .ok (some record.change) := by
  have hloads : loads (dumps record.members) = .ok (.object (readBack record.members)) := by
    apply loads_dumps _ record.fits
    cases record <;> exact List.cons_ne_nil _ _
  cases record with
  | staged entry hentry =>
    have hrecord : StagedRecord (dumps (members (.staged entry hentry)))
        (decodeName entry.staged) (decodeName entry.target) entry.localPath entry.localSize
        entry.localMtime (readBack (members (.staged entry hentry))) :=
      ⟨hloads, rfl, rfl, rfl, rfl, rfl, rfl, rfl⟩
    rw [hrecord.lineUpdate]
    exact stagedUpdate_ok (encodeUtf8_decodeUtf8 entry.staged) (encodeUtf8_decodeUtf8 entry.target)
  | published target =>
    rw [GantrySftp.lineUpdate, hloads]
    rfl

/-- The journal as a log of records. -/
def journalLog : RecordLog JournalRecord JournalError Text JournalEntry where
  read := lineUpdate
  document := fun record => dumps record.members
  change := JournalRecord.change
  written := JournalRecord.written
  read_document := JournalRecord.lineUpdate
  read_malformed := fun text h => by rw [lineUpdate, h]; rfl

/-- The line of a `staged` record. -/
theorem journalLog_staged (entry : JournalEntry) (fits : entry.Fits) :
    journalLog.line (.staged entry fits) = stagedLine entry := rfl

/-- Folding a journal's file makes the changes of its lines. -/
theorem fold_changes (file : LogFile) :
    fold (some file) =
      match journalLog.read.raised (decodedLines file.content) with
      | some error => .error error
      | none => .ok (Dict.empty.updateAll (journalLog.read.changes (decodedLines file.content))) := by
  rw [fold_eq, linesOf_eq, raisedBy_eq, changesOf_eq]
  rfl

/-! ## The manifest -/

/-- An entry whose numbers are read back from JSON. -/
structure ManifestEntry.Fits (entry : ManifestEntry) : Prop where
  localSize : entry.localSize.natAbs < 10 ^ maxIntDigits
  localMtime : entry.localMtime.natAbs < 10 ^ maxIntDigits
  remoteSize : entry.remoteSize.natAbs < 10 ^ maxIntDigits
  remoteMtime : entry.remoteMtime.natAbs < 10 ^ maxIntDigits

/-- A record of the manifest: what one file looked like when it was sent. -/
structure ManifestRecord where
  target : Text
  entry : ManifestEntry
  spellable : Spellable target
  fits : entry.Fits

namespace ManifestRecord

/-- The members of a record's object. -/
def members (record : ManifestRecord) : List (Text × JsonScalar) :=
  manifestMembers record.target record.entry

/-- What a record does to the state. -/
def change (record : ManifestRecord) : Update Text ManifestEntry where
  key := record.target
  value := some record.entry

/-- The members of a manifest record are read back. -/
theorem membersFit (record : ManifestRecord) : ∀ member ∈ record.members, MemberFits member := by
  have hversion : (JsonScalar.int manifestVersion).Fits := by
    change manifestVersion.natAbs < 10 ^ maxIntDigits
    decide +kernel
  intro member hmem
  simp only [members, manifestMembers, ManifestEntry.asJson, List.mem_cons, List.not_mem_nil,
    or_false] at hmem
  obtain rfl | rfl | rfl | rfl | rfl | rfl := hmem
  · exact ⟨spellable_textOf (by decide), hversion⟩
  · exact ⟨spellable_textOf (by decide), record.spellable⟩
  · exact ⟨spellable_textOf (by decide), record.fits.localSize⟩
  · exact ⟨spellable_textOf (by decide), record.fits.localMtime⟩
  · exact ⟨spellable_textOf (by decide), record.fits.remoteSize⟩
  · exact ⟨spellable_textOf (by decide), record.fits.remoteMtime⟩

/-- The object of a manifest record begins with a local field. -/
theorem written (record : ManifestRecord) : WrittenObject (dumps record.members) where
  written := ⟨record.members, List.cons_ne_nil _ _, record.membersFit, rfl⟩
  letter := ⟨0x6C, _, rfl, by decide⟩

/-- A manifest record is read back as what it does to the state. -/
theorem foldLine (record : ManifestRecord) :
    foldLine (dumps record.members) = .ok (some record.change) := by
  have hloads : loads (dumps record.members) = .ok (.object (readBack record.members)) :=
    loads_dumps (List.cons_ne_nil _ _) record.membersFit
  have hupdate : manifestUpdate (readBack record.members) = some record.change := rfl
  rw [GantrySftp.foldLine, hloads]
  exact congrArg Except.ok hupdate

end ManifestRecord

/-- The manifest as a log of records. -/
def manifestLog : RecordLog ManifestRecord JsonError Text ManifestEntry where
  read := foldLine
  document := fun record => dumps record.members
  change := ManifestRecord.change
  written := ManifestRecord.written
  read_document := ManifestRecord.foldLine
  read_malformed := fun text h => by rw [foldLine, h]; rfl

/-- The line of a manifest record. -/
theorem manifestLog_line (record : ManifestRecord) :
    manifestLog.line record = manifestLine record.target record.entry := rfl

end GantrySftp
