import Dfmcp.World.Rebase
import Dfmcp.World.TerrainWrite

/-!
# The search index

`search.rs`: every entity and event of a snapshot as a document, an inverted index of its terms,
and fixed-point scoring of a query. What Unicode says of a character, a word or a quoted text is
the standard library's; the index is built over any `TextRules`. Counts and byte lengths are
`usize`: numbers, with the check where the code checks.
-/

namespace Dfmcp

open Machine

/-- What the standard library says of text. -/
structure TextRules where
  isAlphanumeric : Char → Bool
  toLowercase : String → String
  /-- The `Debug` text of a string: quoted, with its escapes. -/
  strDebug : String → String

/-- A sum of `usize`, when it is in range. -/
def usizeAdd (a b : Nat) : Option Nat := if a + b < 2 ^ 64 then some (a + b) else none

/-! ## The text of values -/

namespace Value

mutual

/-- The derived `Debug` text. -/
def debug (rules : TextRules) : Value → String
  | .null => "Null"
  | .bool value => "Bool(" ++ (if value then "true" else "false") ++ ")"
  | .i64 value => "I64(" ++ toString value.val ++ ")"
  | .u64 value => "U64(" ++ toString value.val ++ ")"
  | .fixed units scale => "Fixed \x7b units: " ++ toString units.val ++ ", scale: " ++
      toString scale.val ++ " \x7d"
  | .text value => "Text(" ++ rules.strDebug value ++ ")"
  | .entity value => "Entity(" ++ debugEntityId value ++ ")"
  | .coord value => "Coord(" ++ value.debug ++ ")"
  | .bytes value => "Bytes([" ++ ", ".intercalate (value.map fun b => toString b.toNat) ++ "])"
  | .list values => "List([" ++ ", ".intercalate (debugList rules values) ++ "])"
  | .object fields => "Object(\x7b" ++ ", ".intercalate (debugFields rules fields) ++ "\x7d)"

def debugList (rules : TextRules) : List Value → List String
  | [] => []
  | v :: vs => v.debug rules :: debugList rules vs

def debugFields (rules : TextRules) : {lo : Option String} → OMap String Value lo → List String
  | _, .nil => []
  | _, .cons k _ v rest => (rules.strDebug k ++ ": " ++ v.debug rules) :: debugFields rules rest

end

end Value

/-! ## Documents -/

def maxSearchDocuments : Nat := 65536
def maxSearchTitleBytes : Nat := 256
def maxSearchBodyBytes : Nat := 65536
def maxSearchIndexBytes : Nat := 64 * 1024 * 1024
def maxSearchTokens : Nat := 4000000
def maxSearchQueryBytes : Nat := 4096
def maxSearchResults : Nat := 1024

/-- A ranked match. -/
structure SearchHit where
  entityId : Option EntityId
  eventId : Option EventId
  title : String
  snippet : String
  scoreMicros : U 64
  matchedTerms : List String
deriving DecidableEq

/-- Tokenizes text into lowercase alphanumeric keywords. -/
def tokenize (rules : TextRules) (text : String) : List String :=
  ((text.toList.splitOnP fun c => !rules.isAlphanumeric c).map String.ofList).filterMap fun w =>
    if strLen w > 1 then some (rules.toLowercase w) else none

structure SearchDocument where
  entityId : Option EntityId
  eventId : Option EventId
  title : String
  body : String

structure FrankenSearchEngine where
  documentsCount : Nat
  totalLength : Nat
  indexedBytes : Nat
  docLengths : List Nat
  invertedIndex : BTreeMap String (List (Nat × Nat))
  docMetadata : List SearchDocument

namespace FrankenSearchEngine

def new : FrankenSearchEngine := ⟨0, 0, 0, [], .nil, []⟩

def exhausted (message : String) : DfmcpError := .new .budgetExceeded message

/-- How often each term occurs. -/
def termFreqs (terms : List String) : BTreeMap String Nat :=
  terms.foldl (fun freqs term => freqs.insert term ((freqs.get? term).getD 0 + 1)) .nil

/-- A posting of every term of a document. -/
def postAll (index : BTreeMap String (List (Nat × Nat))) (docIdx : Nat)
    (freqs : BTreeMap String Nat) : BTreeMap String (List (Nat × Nat)) :=
  freqs.toList.foldl (fun index (term, freq) =>
    index.insert term ((index.get? term).getD [] ++ [(docIdx, freq)])) index

/-- A sum, or the error that says it overflowed. -/
def counted (sum : Option Nat) (message : String) : Result Nat :=
  sum.elim (.error (exhausted message)) .ok

/-- Index a document into the search engine. -/
def indexDocument (rules : TextRules) (engine : FrankenSearchEngine) (document : SearchDocument) :
    Result FrankenSearchEngine :=
  if engine.documentsCount ≥ maxSearchDocuments ∨
      strLen document.title > maxSearchTitleBytes ∨
      strLen document.body > maxSearchBodyBytes then
    .error (exhausted "search document exceeds its count, title, or body bound")
  else do
    let documentBytes ← counted (usizeAdd (strLen document.title) (strLen document.body))
      "search document byte count overflowed"
    let indexedBytes ← counted (usizeAdd engine.indexedBytes documentBytes)
      "search index byte count overflowed"
    if indexedBytes > maxSearchIndexBytes then
      .error (exhausted "search index reached its explicit byte bound")
    else do
      let terms := tokenize rules document.title ++ tokenize rules document.body
      let totalLength ← counted (usizeAdd engine.totalLength terms.length)
        "search token count overflowed"
      if totalLength > maxSearchTokens then
        .error (exhausted "search index reached its explicit token bound")
      else do
        let documentsCount ← counted (usizeAdd engine.documentsCount 1)
          "search document count overflowed"
        pure
          { documentsCount
            totalLength
            indexedBytes
            docLengths := engine.docLengths ++ [terms.length]
            invertedIndex := postAll engine.invertedIndex engine.documentsCount (termFreqs terms)
            docMetadata := engine.docMetadata ++ [document] }

/-- The document of an entity. Only values that the presence of a fact establishes are text. -/
def entityDocument (rules : TextRules) (id : EntityId) (entity : EntityRecord) : SearchDocument :=
  let factsText := entity.fields.toList.filterMap fun (name, fact) =>
    fact.knownValue.map fun value => name ++ ": " ++ value.debug rules
  { entityId := some id
    eventId := none
    title := "Entity " ++ debugEntityId id
    body := entity.label ++ " " ++ entity.kind.asStr ++ " " ++ " ".intercalate factsText }

def eventDocument (rules : TextRules) (event : WorldEvent) : SearchDocument :=
  let fieldsText := event.fields.toList.map fun (name, val) => name ++ ": " ++ val.debug rules
  { entityId := none
    eventId := some event.id
    title := event.summary
    body := event.summary ++ " " ++ " ".intercalate fieldsText }

/-- Every document of a snapshot: its entities, then its events. -/
def documents (rules : TextRules) (snapshot : WorldSnapshot) : List SearchDocument :=
  (snapshot.graph.entities.toList.map fun (id, entity) => entityDocument rules id entity) ++
    snapshot.graph.events.values.map (eventDocument rules)

/-- Too many documents, or too many canonical bytes. -/
def exceedsBounds (snapshot : WorldSnapshot) : Bool :=
  (usizeAdd snapshot.graph.entities.size snapshot.graph.events.size).elim true
    (fun count => count > maxSearchDocuments) ||
    snapshot.canonicalBytes.length > maxSearchIndexBytes

/-- Index all entities and events of a snapshot, in place of what was indexed before. -/
def indexSnapshot (rules : TextRules) (snapshot : WorldSnapshot) : Result FrankenSearchEngine :=
  if !snapshot.hashIsValid then
    .error (.new .internalInvariantViolation
      "cannot index a snapshot with an invalid canonical state hash")
  else if exceedsBounds snapshot then
    .error (.new .budgetExceeded
      "snapshot exceeds the in-memory search indexing bounds or has an invalid hash")
  else (documents rules snapshot).foldlM (indexDocument rules) new

/-! ## Scoring -/

/-- The largest `u128`. -/
def maxU128 : Nat := 2 ^ 128 - 1

/-- Saturating products and sums of `u128`. -/
def satMul (a b : Nat) : Nat := min (a * b) maxU128

def satAdd (a b : Nat) : Nat := min (a + b) maxU128

def scale : Nat := 1000000
def k1Micros : Nat := 1200000
def onePlusK1Micros : Nat := 2200000
def bMicros : Nat := 750000

/-- The score of one posting of a term. -/
def termScore (engine : FrankenSearchEngine) (documentFrequency frequency documentLength : Nat) :
    U 64 :=
  let idfMicros := satMul (engine.documentsCount + 1) scale / (documentFrequency + 1)
  let lengthRatioMicros :=
    satMul (satMul documentLength engine.documentsCount) scale / max engine.totalLength 1
  let lengthNormalizationMicros :=
    satAdd (scale - bMicros) (satMul bMicros lengthRatioMicros / scale)
  let denominatorMicros :=
    satAdd (satMul frequency scale) (satMul k1Micros lengthNormalizationMicros / scale)
  let termFrequencyMicros :=
    satMul (satMul frequency onePlusK1Micros) scale / max denominatorMicros 1
  (U.tryFrom (satMul idfMicros termFrequencyMicros / scale)).getD (U.max 64)

/-- The score of each document, with the terms it matched. -/
abbrev DocScores := BTreeMap Nat (U 64 × BTreeSet String)

/-- One posting of a term. -/
def scorePosting (engine : FrankenSearchEngine) (term : String) (documentFrequency : Nat)
    (scores : DocScores) (posting : Nat × Nat) : DocScores :=
  match engine.docLengths[posting.1]? with
  | none => scores
  | some documentLength =>
      let entry := (scores.get? posting.1).getD (0, .nil)
      scores.insert posting.1
        (entry.1.saturatingAdd
          (engine.termScore documentFrequency posting.2 documentLength),
          entry.2.insert term ())

def scoreTerm (engine : FrankenSearchEngine) (scores : DocScores) (term : String) : DocScores :=
  match engine.invertedIndex.get? term with
  | none => scores
  | some postings => postings.foldl (engine.scorePosting term postings.length) scores

/-- Higher score first, then the document indexed first. -/
def rankedLe (a b : Nat × U 64 × List String) : Bool :=
  if a.2.1 = b.2.1 then a.1 ≤ b.1 else b.2.1 ≤ a.2.1

/-- The characters that begin before a byte offset, counted from `start`. -/
def sliceTo (boundary : Nat) : Nat → List Char → List Char
  | _, [] => []
  | start, c :: cs =>
      if start < boundary then c :: sliceTo boundary (start + c.utf8Size) cs else []

/-- The byte offset where each character begins. -/
def charIndices : Nat → List Char → List Nat
  | _, [] => []
  | start, c :: cs => start :: charIndices (start + c.utf8Size) cs

def snippet (body : String) : String :=
  if strLen body > 120 then
    let boundary := ((charIndices 0 body.toList).takeWhile (· ≤ 120)).foldl (fun _ index => index) 0
    String.ofList (sliceTo boundary 0 body.toList) ++ "..."
  else body

/-- Query the index. -/
def search (rules : TextRules) (engine : FrankenSearchEngine) (query : String) (limit : Nat) :
    Result (List SearchHit) :=
  if strLen query > maxSearchQueryBytes ∨ limit > maxSearchResults then
    .error (exhausted "search query or result limit exceeds its explicit bound")
  else
    let queryTerms := tokenize rules query
    if queryTerms = [] ∨ engine.documentsCount = 0 then .ok []
    else
      let docScores : DocScores := queryTerms.foldl engine.scoreTerm .nil
      let ranked := (docScores.toList.map fun (docIdx, score, terms) =>
        (docIdx, score, terms.keys)).mergeSort rankedLe
      .ok ((ranked.take limit).filterMap fun (docIdx, score, matchedTerms) =>
        engine.docMetadata[docIdx]?.map fun document =>
          { entityId := document.entityId
            eventId := document.eventId
            title := document.title
            snippet := snippet document.body
            scoreMicros := score
            matchedTerms })

/-- The answer of a query over a snapshot. -/
def searchSnapshot (rules : TextRules) (snapshot : WorldSnapshot) (query : String) (limit : Nat) :
    Result (List SearchHit) := do
  let engine ← indexSnapshot rules snapshot
  engine.search rules query limit

end FrankenSearchEngine

end Dfmcp
