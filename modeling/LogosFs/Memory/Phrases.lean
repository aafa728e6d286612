import LogosFs.Lib.Fts5
import LogosFs.Lib.JsonText
import LogosFs.Memory.Archive
import LogosFs.System.Index

/-! # Queries stay in their phrase

The searches of messages, of anchors and of tasks hand the full-text engine a query between quotes. The
text that they bind to `MATCH` is one string token whose value is the query, for every query without
the null character, so nothing in a query is taken for syntax. -/

namespace LogosFs.Memory

open Program (AllOps)

variable (json : JsonCodec)

/-- The text that a statement on the database of a group binds to `MATCH`. -/
def Statement.matched? : Statement → Option Str
  | .matchMessages phrase _ => some phrase
  | _ => none

/-- The text that a statement on the system database binds to `MATCH`. -/
def systemMatched? : System.Statement → Option Str
  | .searchAnchors phrase _ | .searchTasks phrase _ => some phrase
  | _ => none

/-- A text is read as one string token with this value. -/
def IsPhrase (query text : Str) : Prop := Fts5.lex text = some [.string query]

/-- What an operation of the memory module binds to `MATCH` is the phrase of the query. -/
def BindsPhrase (query : Str) : MemoryOp → Prop
  | .sql _ statement => ∀ text ∈ statement.matched?, IsPhrase query text
  | _ => True

/-- The same of an operation of the system module. -/
def BindsSystemPhrase (query : Str) : System.SystemOp → Prop
  | .sql statement => ∀ text ∈ systemMatched? statement, IsPhrase query text
  | .now => True

/-- **A query stays in its phrase**, wherever it is searched for. -/
structure StaysInPhrase (query : Str) : Prop where
  /-- In a search of messages. -/
  messages : ∀ chatId limit,
    (MessageDb.searchFts json chatId query limit).run.AllOps (BindsPhrase query)
  /-- In a search of anchors and tasks. -/
  tasks : ∀ limit, (System.Search.searchTasks json query limit).run.AllOps (BindsSystemPhrase query)
  /-- Another query gives another phrase. -/
  injective : ∀ other, System.Search.phrase other = System.Search.phrase query → other = query

/-- The text `Search.phrase query` that is bound to the statement is the query between quotes, each
quote in it doubled. -/
theorem isPhrase_phrase {query : Str} (h : '\x00' ∉ query) :
    IsPhrase query (System.Search.phrase query) := Fts5.lex_quote h

/-- **Every query without the null character stays in its phrase**: the text that `messages`,
`summaries` and the rest bind for it is one phrase of FTS5 with the words of the query. -/
theorem staysInPhrase {query : Str} (h : '\x00' ∉ query) : StaysInPhrase json query where
  messages chatId limit := by
    refine AllOps.exceptBind ((Program.allOps_perform _).mpr trivial) fun place =>
      AllOps.exceptBind ?_ fun _ => trivial
    refine AllOps.bind ((Program.allOps_perform _).mpr fun text htext => ?_) fun _ => trivial
    rw [← Option.some_inj.mp htext]
    exact isPhrase_phrase h
  tasks limit := by
    have hsearch : ∀ text ∈ some (System.Search.phrase query), IsPhrase query text := by
      intro text htext
      rw [← Option.some_inj.mp htext]
      exact isPhrase_phrase h
    refine AllOps.exceptBind ?_ fun anchors => AllOps.exceptBind ?_ fun tasks => trivial
    · exact AllOps.bind ((Program.allOps_perform _).mpr hsearch) fun _ => trivial
    · exact AllOps.bind ((Program.allOps_perform _).mpr hsearch) fun _ => trivial
  injective other hsame := by
    have hvalue := congrArg System.WordScan.unquote hsame
    rwa [System.WordScan.unquote_phrase, System.WordScan.unquote_phrase] at hvalue

/-- The query `"a" OR b"`, with quotes at its ends and in the middle, stays in its phrase too. -/
theorem staysInPhrase_quotes : StaysInPhrase JsonText.codec "\"a\"\" OR b\"" :=
  staysInPhrase JsonText.codec (by decide)

end LogosFs.Memory
