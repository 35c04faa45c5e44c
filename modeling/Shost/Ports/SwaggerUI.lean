import Shost.Verified.Json
import Shost.Verified.Paths

/-!
# The Swagger UI handler

`Handler` serves an index page, the bundled assets and the documents of its `WithSpec`
options.  The page tells the UI to load each document from `./name`, and the document is
kept under the name as it was given, while a request is looked up under its cleaned path.

How the template escapes the title and what the asset files contain are parameters,
`escape` and `bundled`.

## Main results

* `readSource_marshal` — what the UI reads in the page.
* `servesSpecs_iff` — which names are found again under the address the UI is given.
-/

namespace Shost.Ports.SwaggerUI

open Verified Bytes Paths Json

structure SpecEntry where
  name : Bytes
  url : Bytes

structure Config where
  title : Bytes
  /-- what the UI offers to load -/
  entries : List SpecEntry
  /-- documents served by the handler itself -/
  specs : Bytes → Option Bytes

/-- The options of `Handler`. -/
inductive Opt
  | withSpec (name spec : Bytes)
  | withSpecURL (url : Bytes)
  | withTitle (title : Bytes)

def trimPrefix (cut s : Bytes) : Bytes := if cut.isPrefixOf s then s.drop cut.length else s

def Opt.apply (c : Config) : Opt → Config
  | withSpec name spec =>
      let name := trimPrefix (utf8 "/") name
      { c with
        entries := c.entries ++ [⟨name, utf8 "./" ++ name⟩]
        specs := Function.update c.specs name (some spec) }
  | withSpecURL url => { c with entries := c.entries ++ [⟨url, url⟩] }
  | withTitle title => { c with title := title }

def config (opts : List Opt) : Config :=
  opts.foldl Opt.apply { title := utf8 "Swagger UI", entries := [], specs := fun _ => none }

/-- The UI's spec source. -/
inductive Source
  | none
  | url (url : Bytes)
  | urls (entries : List SpecEntry)

def source : List SpecEntry → Source
  | [] => .none
  | [entry] => .url entry.url
  | entries => .urls entries

/-! ## The page -/

def emptyObject : List Char := "\x7b\x7d".toList
def urlObject : List Char := "\x7b\"url\":".toList
def urlsObject : List Char := "\x7b\"urls\":[".toList
def nameObject : List Char := "\x7b\"name\":".toList
def urlField : List Char := ",\"url\":".toList
def closeObject : List Char := "\x7d".toList
def closeArray : List Char := "]\x7d".toList
def comma : List Char := ",".toList

def marshalEntry (entry : SpecEntry) : List Char :=
  nameObject ++ quote entry.name ++ urlField ++ quote entry.url ++ closeObject

/-- `json.Marshal` of the map that `renderIndex` makes of the source. -/
def marshal : Source → List Char
  | .none => emptyObject
  | .url url => urlObject ++ quote url ++ closeObject
  | .urls entries => urlsObject ++ comma.intercalate (entries.map marshalEntry) ++ closeArray

/-- The template up to the title. -/
def pageHead : String :=
  "<!doctype html>\n<html lang=\"en\">\n<head>\n<meta charset=\"utf-8\">\n" ++
  "<meta name=\"viewport\" content=\"width=device-width, initial-scale=1\">\n<title>"

/-- The template from the title to the source. -/
def pageMiddle : String :=
  "</title>\n<link rel=\"stylesheet\" href=\"./swagger-ui.css\">\n" ++
  "<style>html\x7bbox-sizing:border-box;overflow-y:scroll\x7d" ++
  "*,*:before,*:after\x7bbox-sizing:inherit\x7d" ++
  "body\x7bmargin:0;background:#fafafa\x7d</style>\n</head>\n<body>\n" ++
  "<div id=\"swagger-ui\"></div>\n<script src=\"./swagger-ui-bundle.js\"></script>\n" ++
  "<script>\nwindow.ui = SwaggerUIBundle(Object.assign(\x7b\n" ++
  "  dom_id: \"#swagger-ui\",\n  deepLinking: true,\n" ++
  "  presets: [SwaggerUIBundle.presets.apis],\n" ++
  "  oauth2RedirectUrl: window.location.href.replace(/[^\\/]*(\\?.*)?(#.*)?$/, \"\") + " ++
  "\"oauth2-redirect.html\"\n\x7d, "

/-- The template behind the source. -/
def pageTail : String := "));\n</script>\n</body>\n</html>\n"

structure Response where
  status : Nat
  header : List (String × String)
  body : Bytes

def serve (contentType : String) (body : Bytes) : Response :=
  { status := 200
    header := [("Content-Type", contentType), ("X-Content-Type-Options", "nosniff")]
    body := body }

/-- The answer of `http.Error`. -/
def httpError (header : List (String × String)) (error : String) (code : Nat) : Response :=
  { status := code
    header := header ++
      [("Content-Type", "text/plain; charset=utf-8"), ("X-Content-Type-Options", "nosniff")]
    body := utf8 error ++ utf8 "\n" }

/-- What follows the last dot of the last segment, with the dot. -/
def ext (path : Bytes) : Bytes :=
  let last := path.reverse.takeWhile (· ≠ slash)
  if dot ∈ last then dot :: (last.takeWhile (· ≠ dot)).reverse else []

/-- Only ASCII letters have an ASCII letter of the extensions below as their lower case. -/
def toLower (s : Bytes) : Bytes := s.map fun c => if 0x41 ≤ c ∧ c ≤ 0x5A then c + 0x20 else c

def specContentType (name : Bytes) : String :=
  let lower := toLower (ext name)
  if lower = utf8 ".yaml" ∨ lower = utf8 ".yml" then "application/yaml" else "application/json"

def assetContentType (name : Bytes) : String :=
  let lower := toLower (ext name)
  if lower = utf8 ".css" then "text/css; charset=utf-8"
  else if lower = utf8 ".js" then "text/javascript; charset=utf-8"
  else if lower = utf8 ".html" then "text/html; charset=utf-8"
  else "text/plain; charset=utf-8"

/-- The files under `assets`. -/
def assetNames : List Bytes :=
  [utf8 "VERSION", utf8 "oauth2-redirect.html", utf8 "oauth2-redirect.js",
    utf8 "swagger-ui-bundle.js", utf8 "swagger-ui-bundle.js.LICENSE.txt", utf8 "swagger-ui.css"]

/-- The name under which a request is looked up. -/
def lookupName (path : Bytes) : Bytes := trimPrefix (utf8 "/") (clean (slash :: path))

/-! ## What the UI reads -/

/-- The source as the script of the page has it, made of texts. -/
inductive Reading
  | none
  | url (url : List Char)
  | urls (entries : List (List Char × List Char))

/-- The addresses that the UI loads documents from. -/
def Reading.addresses : Reading → List (List Char)
  | .none => []
  | .url address => [address]
  | .urls entries => entries.map Prod.snd

/-- The texts that the strings of a source are taken for. -/
def Source.reading : Source → Reading
  | .none => .none
  | .url address => .url (readable address)
  | .urls entries => .urls (entries.map fun entry => (readable entry.name, readable entry.url))

/-- What follows a word. -/
def expect (word text : List Char) : Option (List Char) :=
  if word.isPrefixOf text then some (text.drop word.length) else none

/-- A string between two words, and what follows. -/
def readBetween (before after text : List Char) : Option (List Char × List Char) :=
  (expect before text).bind fun text =>
    (readQuoted text).bind fun p => (expect after p.2).map fun text => (p.1, text)

def readEntry (text : List Char) : Option ((List Char × List Char) × List Char) :=
  (readBetween nameObject urlField text).bind fun p =>
    (readBetween [] closeObject p.2).map fun q => ((p.1, q.1), q.2)

/-- The entries of an array, of which there is one at least. -/
def readEntries : Nat → List Char → Option (List (List Char × List Char) × List Char)
  | 0, _ => none
  | n + 1, text =>
      (readEntry text).bind fun p =>
        match expect comma p.2 with
        | some text => (readEntries n text).map fun q => (p.1 :: q.1, q.2)
        | none => (expect closeArray p.2).map fun text => ([p.1], text)

/-- The source, read as JSON. -/
def readSource (text : List Char) : Option (Reading × List Char) :=
  match expect emptyObject text with
  | some rest => some (.none, rest)
  | none =>
      match readBetween urlObject closeObject text with
      | some (address, rest) => some (.url address, rest)
      | none =>
          (expect urlsObject text).bind fun text =>
            (readEntries text.length text).map fun p => (.urls p.1, p.2)

theorem expect_append (word rest : List Char) : expect word (word ++ rest) = some rest := by
  rw [expect, if_pos, List.drop_left]
  exact List.isPrefixOf_iff_prefix.mpr (List.prefix_append _ _)

theorem expect_other {word word' : List Char} (hlength : word.length ≤ word'.length)
    (hother : ¬word <+: word') (rest : List Char) : expect word (word' ++ rest) = none := by
  refine if_neg fun hprefix => hother ?_
  exact List.prefix_of_prefix_length_le (List.isPrefixOf_iff_prefix.mp hprefix)
    (List.prefix_append _ _) hlength

theorem readBetween_append (before after rest : List Char) (s : Bytes) :
    readBetween before after (before ++ (quote s ++ (after ++ rest))) =
      some (readable s, rest) := by
  simp only [readBetween, expect_append, readQuoted_quote, Option.bind_some, Option.map_some]

theorem readEntry_marshal (entry : SpecEntry) (rest : List Char) :
    readEntry (marshalEntry entry ++ rest) =
      some ((readable entry.name, readable entry.url), rest) := by
  have hurl := readBetween_append [] closeObject rest entry.url
  rw [List.nil_append] at hurl
  simp only [readEntry, marshalEntry, List.append_assoc, readBetween_append, hurl,
    Option.bind_some, Option.map_some]

theorem readEntries_marshal (entry : SpecEntry) (entries : List SpecEntry) (n : Nat)
    (hn : entries.length ≤ n) (rest : List Char) :
    readEntries (n + 1) (comma.intercalate ((entry :: entries).map marshalEntry) ++
      (closeArray ++ rest)) =
        some ((entry :: entries).map fun entry => (readable entry.name, readable entry.url),
          rest) := by
  induction entries generalizing entry n with
  | nil =>
      have hlast : expect comma (closeArray ++ rest) = none :=
        expect_other (by decide) (by decide) rest
      rw [List.map_singleton, List.intercalate_singleton, readEntries, readEntry_marshal,
        Option.bind_some]
      simp only [hlast, expect_append]
      rfl
  | cons entry' entries ih =>
      obtain ⟨m, rfl⟩ := Nat.exists_eq_add_one_of_ne_zero (Nat.ne_of_gt (Nat.lt_of_lt_of_le
        (Nat.succ_pos _) hn))
      have hrest := ih entry' m (Nat.le_of_succ_le_succ hn)
      rw [List.map_cons] at hrest
      rw [List.map_cons, List.map_cons, List.intercalate_cons_cons, List.append_assoc,
        List.append_assoc, readEntries, readEntry_marshal, Option.bind_some]
      simp only [expect_append, hrest]
      rfl

private theorem length_entries (entries : List SpecEntry) :
    entries.length ≤ (comma.intercalate (entries.map marshalEntry)).length := by
  have hone (entry : SpecEntry) : 1 ≤ (marshalEntry entry).length :=
    Nat.le_trans (by decide : 1 ≤ nameObject.length) (by simp [marshalEntry])
  induction entries with
  | nil => exact Nat.zero_le _
  | cons entry entries ih =>
      have hentry := hone entry
      cases entries with
      | nil =>
          rw [List.map_singleton, List.intercalate_singleton]
          exact hentry
      | cons entry' entries =>
          rw [List.map_cons] at ih
          rw [List.map_cons, List.map_cons, List.intercalate_cons_cons, List.length_append,
            List.length_append, List.length_cons]
          omega

/-- The UI reads the source as it is, but for bytes that belong to no character. -/
theorem readSource_marshal (entries : List SpecEntry) (rest : List Char) :
    readSource (marshal (source entries) ++ rest) = some ((source entries).reading, rest) := by
  match entries with
  | [] => simp only [source, marshal, readSource, expect_append, Source.reading]
  | [entry] =>
      have hother : ∀ rest, expect emptyObject (urlObject ++ rest) = none :=
        expect_other (by decide) (by decide)
      simp only [source, marshal, readSource, List.append_assoc, hother, readBetween_append,
        Source.reading]
  | entry :: entry' :: entries =>
      have hother : ∀ rest, expect emptyObject (urlsObject ++ rest) = none :=
        expect_other (by decide) (by decide)
      have hother' : ∀ rest, expect urlObject (urlsObject ++ rest) = none :=
        expect_other (by decide) (by decide)
      let body := comma.intercalate ((entry :: entry' :: entries).map marshalEntry) ++
        (closeArray ++ rest)
      have hbody : (entry' :: entries).length + 1 ≤ body.length := by
        have hlength := length_entries (entry :: entry' :: entries)
        rw [List.length_append]
        exact Nat.le_add_right_of_le hlength
      obtain ⟨n, hn⟩ := Nat.exists_eq_add_one_of_ne_zero (Nat.ne_of_gt (Nat.lt_of_lt_of_le
        (Nat.succ_pos _) hbody))
      have hread := readEntries_marshal entry (entry' :: entries) n (by omega) rest
      rw [← hn] at hread
      simp only [source, marshal, readSource, List.append_assoc, hother, readBetween, hother',
        expect_append, Option.bind_none, Option.bind_some, Source.reading]
      rw [hread]
      rfl

section Handler

variable (escape : Bytes → Bytes) (bundled : Bytes → Bytes)

def readAsset (name : Bytes) : Option Bytes :=
  if name ∈ assetNames then some (bundled name) else none

/-- The template puts the source into the page as it is. -/
def renderIndex (c : Config) : Bytes :=
  utf8 pageHead ++ escape c.title ++ utf8 pageMiddle ++ encode (marshal (source c.entries)) ++
    utf8 pageTail

/-- The handler of a configuration. -/
def handler (c : Config) (method : String) (path : Bytes) : Response :=
  if method ≠ "GET" ∧ method ≠ "HEAD" then
    httpError [("Allow", "GET, HEAD")] "Method Not Allowed" 405
  else
    let p := lookupName path
    if p = [] ∨ p = utf8 "." ∨ p = utf8 "index.html" then
      serve "text/html; charset=utf-8" (renderIndex escape c)
    else
      match c.specs p with
      | some spec => serve (specContentType p) spec
      | none =>
          match readAsset bundled p with
          | some data => serve (assetContentType p) data
          | none => httpError [] "404 page not found" 404

/-! ## What the UI finds -/

/-- The document of an option with the name it is kept under. -/
def Opt.doc : Opt → Option (Bytes × Bytes)
  | withSpec name spec => some (trimPrefix (utf8 "/") name, spec)
  | _ => none

def docs (opts : List Opt) : List (Bytes × Bytes) := opts.filterMap Opt.doc

/-- Names that a relative address can spell, each for one document. -/
structure WellNamed (opts : List Opt) : Prop where
  nonempty : ∀ doc ∈ docs opts, doc.1 ≠ []
  distinct : ((docs opts).map Prod.fst).Nodup
  /-- no `?`, `#` or `%` -/
  path_only : ∀ doc ∈ docs opts, 0x3F ∉ doc.1 ∧ 0x23 ∉ doc.1 ∧ 0x25 ∉ doc.1

/-- The UI is given the address of the document, and finds the document there. -/
def Serves (opts : List Opt) (doc : Bytes × Bytes) : Prop :=
  let url := utf8 "./" ++ doc.1
  let response := handler escape bundled (config opts) "GET" (resolve url)
  ⟨doc.1, url⟩ ∈ (config opts).entries ∧ response.status = 200 ∧ response.body = doc.2

def ServesSpecs (opts : List Opt) : Prop := ∀ doc ∈ docs opts, Serves escape bundled opts doc

/-- A name that is its own cleaned path and is not taken by the index page. -/
def Addressable (name : Bytes) : Prop := Plain name ∧ name ≠ utf8 "index.html"

instance : DecidablePred Addressable := fun _ => inferInstanceAs (Decidable (_ ∧ _))

/--
The address of a document leads to something else, the page, another document or an asset,
which happens to be the same bytes.
-/
def Twin (opts : List Opt) (doc : Bytes × Bytes) : Prop :=
  let p := lookupName (resolve (utf8 "./" ++ doc.1))
  if p = [] ∨ p = utf8 "index.html" then renderIndex escape (config opts) = doc.2
  else p ≠ doc.1 ∧ ((p, doc.2) ∈ docs opts ∨
    p ∉ (docs opts).map Prod.fst ∧ readAsset bundled p = some doc.2)

/-- Other documents under the same names. -/
def relabel (content : Bytes → Bytes) (opts : List Opt) : List Opt :=
  opts.map fun
    | .withSpec name _ => .withSpec name (content (trimPrefix (utf8 "/") name))
    | opt => opt

/-- What an option gives the UI to load. -/
def Opt.entry : Opt → Option SpecEntry
  | withSpec name _ =>
      some ⟨trimPrefix (utf8 "/") name, utf8 "./" ++ trimPrefix (utf8 "/") name⟩
  | withSpecURL url => some ⟨url, url⟩
  | withTitle _ => none

/-- The source that the page has. -/
def offered (opts : List Opt) : Source := source (opts.filterMap Opt.entry)

/-- The page lists what the options give the UI to load, in their order, and the UI reads
the address of a document as it is when its name is the encoding of a text. -/
structure Lists (opts : List Opt) : Prop where
  page : renderIndex escape (config opts) =
    utf8 pageHead ++ escape (config opts).title ++ utf8 pageMiddle ++
      encode (marshal (offered opts) ++ pageTail.toList)
  read : readSource (marshal (offered opts) ++ pageTail.toList) =
    some ((offered opts).reading, pageTail.toList)
  address : ∀ doc ∈ docs opts,
    (∃ a ∈ (offered opts).reading.addresses, encode a = utf8 "./" ++ doc.1) ↔ Valid doc.1

variable {escape bundled} {opts : List Opt} {doc : Bytes × Bytes}

/-! ## The configuration -/

theorem config_append (opts : List Opt) (opt : Opt) :
    config (opts ++ [opt]) = opt.apply (config opts) := by
  rw [config, List.foldl_append]
  rfl

theorem docs_append (opts : List Opt) (opt : Opt) :
    docs (opts ++ [opt]) = docs opts ++ docs [opt] := List.filterMap_append

theorem entries_config (opts : List Opt) : (config opts).entries = opts.filterMap Opt.entry := by
  induction opts using List.reverseRecOn with
  | nil => rfl
  | append_singleton opts opt ih =>
      rw [config_append, List.filterMap_append, ← ih]
      cases opt with
      | withSpec name spec | withSpecURL url => rfl
      | withTitle title => exact (List.append_nil _).symm

/-- Every document is offered to the UI. -/
theorem entry_mem (hdoc : doc ∈ docs opts) :
    (⟨doc.1, utf8 "./" ++ doc.1⟩ : SpecEntry) ∈ (config opts).entries := by
  obtain ⟨opt, hopt, hsome⟩ := List.mem_filterMap.mp hdoc
  rw [entries_config]
  refine List.mem_filterMap.mpr ⟨opt, hopt, ?_⟩
  cases opt with
  | withSpec name spec =>
      obtain rfl := Option.some.inj hsome
      rfl
  | withSpecURL url | withTitle title => cases hsome

/-! ## What the page says -/

theorem addresses_reading (entries : List SpecEntry) :
    (source entries).reading.addresses = entries.map fun entry => readable entry.url := by
  match entries with
  | [] | [_] => rfl
  | entry :: entry' :: entries =>
      simp [source, Source.reading, Reading.addresses]

/-- The addresses of the documents are read as they are, if they are encodings of texts. -/
theorem address_iff (hdoc : doc ∈ docs opts) :
    (∃ a ∈ (offered opts).reading.addresses, encode a = utf8 "./" ++ doc.1) ↔ Valid doc.1 := by
  have hvalid : Valid (utf8 "./" ++ doc.1) ↔ Valid doc.1 := valid_append
  rw [offered, addresses_reading, ← entries_config, ← hvalid]
  constructor
  · rintro ⟨a, -, heq⟩
    rw [← heq]
    exact valid_encode a
  · intro hname
    exact ⟨_, List.mem_map_of_mem (entry_mem hdoc), encode_readable_iff.mpr hname⟩

theorem lists_config (opts : List Opt) : Lists escape opts where
  page := by
    rw [renderIndex, entries_config, encode_append, ← List.append_assoc]
    rfl
  read := readSource_marshal _ _
  address := fun _ hdoc => address_iff hdoc

/-! ## What the handler keeps -/

/-- The documents the handler holds are those of the options. -/
theorem specs_eq_some (hdistinct : ((docs opts).map Prod.fst).Nodup) {name spec : Bytes} :
    (config opts).specs name = some spec ↔ (name, spec) ∈ docs opts := by
  induction opts using List.reverseRecOn with
  | nil => simp [config, docs]
  | append_singleton opts opt ih =>
      rw [docs_append, List.map_append, List.nodup_append] at hdistinct
      rw [config_append, docs_append, List.mem_append]
      cases opt with
      | withSpec given added =>
          have hnew : docs [.withSpec given added] = [(trimPrefix (utf8 "/") given, added)] := rfl
          rw [hnew] at hdistinct ⊢
          rw [List.mem_singleton, Prod.mk.injEq, ← ih hdistinct.1]
          by_cases hname : name = trimPrefix (utf8 "/") given
          · have hfresh : (config opts).specs name ≠ some spec := fun hold =>
              hdistinct.2.2 name (List.mem_map_of_mem ((ih hdistinct.1).mp hold)) name
                (by simp [hname]) rfl
            simp [Opt.apply, ← hname, hfresh, eq_comm]
          · simp [Opt.apply, hname]
      | withSpecURL url => exact (ih hdistinct.1).trans (by simp [docs, Opt.doc])
      | withTitle title => exact (ih hdistinct.1).trans (by simp [docs, Opt.doc])

/-- Requests are looked up under what cleaning leaves of their path. -/
theorem lookupName_resolve (name : Bytes) :
    lookupName (resolve (utf8 "./" ++ name)) =
      join (kept (join (removeDots [] (segments name)))) := by
  have hdots : utf8 "./" ++ name = dot :: slash :: name := rfl
  rw [hdots, resolve_here, resolve, lookupName, clean_slash, kept_slash]
  rfl

theorem lookupName_of_plain {name : Bytes} (hname : Plain name) :
    lookupName (resolve (utf8 "./" ++ name)) = name := by
  rw [lookupName_resolve, removeDots_of_proper hname]
  simp [kept_of_plain hname]

/-- No other name is found under its own address. -/
theorem plain_of_lookupName {name : Bytes} (hne : name ≠ [])
    (hself : lookupName (resolve (utf8 "./" ++ name)) = name) : Plain name := by
  rw [lookupName_resolve] at hself
  rw [← hself] at hne ⊢
  exact plain_of_join_kept hne

/-! ## Which documents are found -/

theorem lookupName_ne_dot (name : Bytes) :
    lookupName (resolve (utf8 "./" ++ name)) ≠ utf8 "." := by
  intro hdot
  rw [lookupName_resolve] at hdot
  have hplain := @plain_of_join_kept (join (removeDots [] (segments name)))
  rw [hdot] at hplain
  exact absurd (hplain (by decide)) (by decide)

theorem handler_get (c : Config) (path : Bytes) (hdot : lookupName path ≠ utf8 ".") :
    handler escape bundled c "GET" path =
      if lookupName path = [] ∨ lookupName path = utf8 "index.html" then
        serve "text/html; charset=utf-8" (renderIndex escape c)
      else
        match c.specs (lookupName path) with
        | some spec => serve (specContentType (lookupName path)) spec
        | none =>
            match readAsset bundled (lookupName path) with
            | some data => serve (assetContentType (lookupName path)) data
            | none => httpError [] "404 page not found" 404 := by
  rw [handler, if_neg (by simp)]
  simp only [hdot, false_or]

/-- A document is found under its own name. -/
theorem serves_of_addressable (hnamed : WellNamed opts) (hdoc : doc ∈ docs opts)
    (haddress : Addressable doc.1) : Serves escape bundled opts doc := by
  have hpage : ¬(doc.1 = [] ∨ doc.1 = utf8 "index.html") := by
    simp [hnamed.nonempty doc hdoc, haddress.2]
  have hspec : (config opts).specs doc.1 = some doc.2 := (specs_eq_some hnamed.distinct).mpr hdoc
  rw [Serves, handler_get _ _ (lookupName_ne_dot doc.1), lookupName_of_plain haddress.1,
    if_neg hpage, hspec]
  exact ⟨entry_mem hdoc, rfl, rfl⟩

/-- At the address of any other document stands something else. -/
theorem serves_iff (hnamed : WellNamed opts) (hdoc : doc ∈ docs opts) :
    Serves escape bundled opts doc ↔ Addressable doc.1 ∨ Twin escape bundled opts doc := by
  by_cases haddress : Addressable doc.1
  · exact ⟨fun _ => .inl haddress, fun _ => serves_of_addressable hnamed hdoc haddress⟩
  rw [or_iff_right haddress, Serves, Twin, handler_get _ _ (lookupName_ne_dot doc.1)]
  have hself : lookupName (resolve (utf8 "./" ++ doc.1)) = doc.1 → doc.1 = utf8 "index.html" :=
    fun heq => by_contra fun hpage =>
      haddress ⟨plain_of_lookupName (hnamed.nonempty doc hdoc) heq, hpage⟩
  generalize lookupName (resolve (utf8 "./" ++ doc.1)) = p at hself ⊢
  have hentry := entry_mem hdoc
  by_cases hpage : p = [] ∨ p = utf8 "index.html"
  · simp [hpage, hentry, serve]
  · have hother : p ≠ doc.1 := fun heq => hpage (.inr (heq.trans (hself heq)))
    simp only [if_neg hpage]
    cases hspec : (config opts).specs p with
    | some spec =>
        have hmem := (specs_eq_some hnamed.distinct).mp hspec
        have hname : p ∈ (docs opts).map Prod.fst := List.mem_map_of_mem hmem
        have hsame : (p, doc.2) ∈ docs opts ↔ spec = doc.2 := by
          rw [← specs_eq_some hnamed.distinct, hspec, Option.some.injEq]
        simp [hentry, hother, hname, hsame, serve]
    | none =>
        have hmem : ∀ spec, (p, spec) ∉ docs opts := fun spec hmem => by
          rw [(specs_eq_some hnamed.distinct).mpr hmem] at hspec
          cases hspec
        have hname : p ∉ (docs opts).map Prod.fst := by
          simpa using hmem
        cases hasset : readAsset bundled p with
        | some data => simp [hentry, hother, hmem, hname, serve]
        | none => simp [hmem, httpError]

/-! ## Whatever the documents are -/

@[simp] theorem docs_relabel (content : Bytes → Bytes) (opts : List Opt) :
    docs (relabel content opts) = (docs opts).map fun doc => (doc.1, content doc.1) := by
  rw [docs, docs, relabel, List.filterMap_map, List.map_filterMap]
  congr 1
  funext opt
  cases opt <;> rfl

/-- The page does not depend on the documents. -/
theorem renderIndex_relabel (content : Bytes → Bytes) (opts : List Opt) :
    renderIndex escape (config (relabel content opts)) = renderIndex escape (config opts) := by
  have hsame : (config (relabel content opts)).title = (config opts).title ∧
      (config (relabel content opts)).entries = (config opts).entries := by
    induction opts using List.reverseRecOn with
    | nil => exact ⟨rfl, rfl⟩
    | append_singleton opts opt ih =>
        rw [relabel, List.map_append, List.map_singleton, config_append, config_append]
        cases opt with
        | withSpec name spec => exact ⟨ih.1, congrArg (· ++ _) ih.2⟩
        | withSpecURL url => exact ⟨ih.1, congrArg (· ++ _) ih.2⟩
        | withTitle title => exact ⟨rfl, ih.2⟩
  rw [renderIndex, renderIndex, hsame.1, hsame.2]

theorem wellNamed_relabel (content : Bytes → Bytes) (hnamed : WellNamed opts) :
    WellNamed (relabel content opts) where
  nonempty doc hdoc := by
    rw [docs_relabel] at hdoc
    obtain ⟨given, hgiven, rfl⟩ := List.mem_map.mp hdoc
    exact hnamed.nonempty given hgiven
  distinct := by
    rw [docs_relabel, List.map_map]
    exact hnamed.distinct
  path_only doc hdoc := by
    rw [docs_relabel] at hdoc
    obtain ⟨given, hgiven, rfl⟩ := List.mem_map.mp hdoc
    exact hnamed.path_only given hgiven

/-- Some document is like nothing else the handler has. -/
theorem exists_no_twin (escape bundled : Bytes → Bytes)
    (opts : List Opt) (name : Bytes) :
    ∃ content : Bytes → Bytes,
      ¬Twin escape bundled (relabel content opts) (name, content name) := by
  let page := renderIndex escape (config opts)
  let asset := bundled (lookupName (resolve (utf8 "./" ++ name)))
  let long : Bytes := List.replicate (page.length + asset.length + 1) 0
  have hlong : long.length = page.length + asset.length + 1 := List.length_replicate ..
  let content : Bytes → Bytes := fun other => if other = name then long else []
  have hself : content name = long := if_pos rfl
  refine ⟨content, fun htwin => ?_⟩
  rw [Twin, hself] at htwin
  split at htwin
  · rw [renderIndex_relabel] at htwin
    have hlength : page.length = long.length := congrArg List.length htwin
    omega
  · obtain ⟨hother, hdoc | ⟨-, hasset⟩⟩ := htwin
    · rw [docs_relabel] at hdoc
      obtain ⟨given, -, heq⟩ := List.mem_map.mp hdoc
      have hname : given.1 = lookupName (resolve (utf8 "./" ++ name)) := (Prod.mk.inj heq).1
      have hcontent : content given.1 = long := (Prod.mk.inj heq).2
      have hempty : content given.1 = [] := if_neg (hname ▸ hother)
      rw [← hcontent, hempty, List.length_nil] at hlong
      omega
    · rw [readAsset] at hasset
      split at hasset
      · have hlength : asset.length = long.length := congrArg List.length (Option.some.inj hasset)
        omega
      · cases hasset

/--
**Where the UI finds the documents**: a document is served at the address the UI is given
exactly if its name is plain and is not that of the page, or if something else at that
address is the same bytes; the names for which it is served whatever the documents are, are
the plain ones.  The address is given in the page, where the UI reads it.
-/
theorem servesSpecs_iff (hnamed : WellNamed opts) :
    (ServesSpecs escape bundled opts ↔
      ∀ doc ∈ docs opts, Addressable doc.1 ∨ Twin escape bundled opts doc) ∧
    ((∀ content, ServesSpecs escape bundled (relabel content opts)) ↔
      ∀ doc ∈ docs opts, Addressable doc.1) ∧
    Lists escape opts := by
  refine ⟨forall₂_congr fun doc hdoc => serves_iff hnamed hdoc,
    ⟨fun hserves doc hdoc => ?_, fun haddress content doc hdoc => ?_⟩, lists_config opts⟩
  · by_contra hnot
    obtain ⟨content, htwin⟩ := exists_no_twin escape bundled opts doc.1
    have hmem : (doc.1, content doc.1) ∈ docs (relabel content opts) := by
      rw [docs_relabel]
      exact List.mem_map_of_mem (f := fun doc => (doc.1, content doc.1)) hdoc
    rcases (serves_iff (wellNamed_relabel content hnamed) hmem).mp (hserves content _ hmem)
      with h | h
    · exact hnot h
    · exact htwin h
  · have hmem := hdoc
    rw [docs_relabel] at hmem
    obtain ⟨given, hgiven, rfl⟩ := List.mem_map.mp hmem
    exact serves_of_addressable (wellNamed_relabel content hnamed) hdoc (haddress given hgiven)

end Handler

/-- A doubled slash: the UI is sent to an address that nothing stands at. -/
def versioned : List Opt := [.withSpec (utf8 "v1//openapi.json") (utf8 "\x7b\x7d")]

theorem versioned_lost : WellNamed versioned ∧
    ∀ (escape bundled : Bytes → Bytes),
      ¬ServesSpecs escape bundled versioned := by
  have hnamed : WellNamed versioned := ⟨by decide, by decide, by decide⟩
  refine ⟨hnamed, fun escape bundled hserves => ?_⟩
  have hdoc : (utf8 "v1//openapi.json", utf8 "\x7b\x7d") ∈ docs versioned := by decide
  have hlookup : lookupName (resolve (utf8 "./" ++ utf8 "v1//openapi.json")) =
      utf8 "v1/openapi.json" := by decide
  rcases (serves_iff hnamed hdoc).mp (hserves _ hdoc) with haddress | htwin
  · exact absurd haddress (by decide)
  · rw [Twin, hlookup, if_neg (by decide)] at htwin
    rcases htwin.2 with hmem | ⟨-, hasset⟩
    · exact absurd hmem (by decide)
    · rw [readAsset, if_neg (by decide)] at hasset
      cases hasset

/-- Two documents beside one that is served elsewhere. -/
def shop : List Opt :=
  [.withTitle (utf8 "Shop"), .withSpec (utf8 "/orders/openapi.yaml") (utf8 "openapi: 3.0.0"),
    .withSpecURL (utf8 "/billing/openapi.json"), .withSpec (utf8 "stock.json") (utf8 "\x7b\x7d")]

theorem servesSpecs_shop : (∀ doc ∈ docs shop, Addressable doc.1) ∧
    ∀ content, ServesSpecs id id (relabel content shop) := by
  have haddress : ∀ doc ∈ docs shop, Addressable doc.1 := by decide
  exact ⟨haddress, (servesSpecs_iff ⟨by decide, by decide, by decide⟩).2.1.mpr haddress⟩

end Shost.Ports.SwaggerUI
