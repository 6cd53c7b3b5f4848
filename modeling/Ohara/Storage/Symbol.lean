import Ohara.Storage.Schema

/-!
# The `symbol` table and its mirrors

The table holds the symbols of one snapshot of the tree; every write replaces all of it.
-/

namespace Ohara

namespace Symbol

/-- The row `put_one` inserts into `symbol`. -/
def row (id filePathId : Nat) (symbol : Symbol) : SymbolRow where
  id := id
  filePathId := filePathId
  kind := symbol.kind.toStr
  name := symbol.name
  qualifiedName := symbol.qualifiedName
  spanStart := symbol.spanStart.toNat
  spanEnd := symbol.spanEnd.toNat
  blobSha := symbol.blobSha
  sourceText := symbol.sourceText
  siblingNames := jsonStringArray symbol.siblingNames

/-- The row `put_one` inserts into `fts_symbol_name`. -/
def ftsNameRow (id : Nat) (symbol : Symbol) : FtsSymbolNameRow where
  symbolId := id
  kind := symbol.kind.toStr
  name := symbol.name
  siblingNames := jsonStringArray symbol.siblingNames

/-- A symbol in its table and the mirrors. -/
def putOne (filePathId : Nat) (symbol : Symbol) (db : Database) : Except SqlError Database := do
  let id := Rows.nextRowid (db.symbol.map SymbolRow.id)
  let db ← execute (fun db => { db with symbol := db.symbol ++ [symbol.row id filePathId] }) db
  execute (fun db => { db with ftsSymbolName := db.ftsSymbolName ++ [symbol.ftsNameRow id] }) db

/-- The tables of the symbols are emptied. -/
def clearAll (db : Database) : Except SqlError Database := do
  let db ← execute (fun db => { db with ftsSymbol := [] }) db
  let db ← execute (fun db => { db with ftsSymbolName := [] }) db
  let db ← execute (fun db => { db with vecSymbol := [] }) db
  execute (fun db => { db with symbol := [] }) db

/-- The insert `put_many` runs for one symbol. -/
def insertSymbol (db : Database) (symbol : Symbol) : Except SqlError Database := do
  let (db, filePathId) ← upsertFilePath symbol.filePath (some symbol.language) db
  symbol.putOne filePathId db

/-- `symbol::put_many`: the same deletes as `clear_all`, then the new snapshot. -/
def putMany (symbols : List Symbol) (db : Database) : Except SqlError Database := do
  let db ← clearAll db
  symbols.foldlM insertSymbol db

end Symbol

end Ohara
