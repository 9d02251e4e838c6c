import Rrdtool.Lib.Parse
import Rrdtool.Define

/-!
# Reading XML

`rrd_restore` goes through a document with the text reader of `libxml2`, which reports one node after the other. White
space between tags, comments and the like are nodes of their own; an element without content has no end node when it
is written as one tag. The functions here are those that `rrd_restore.c` puts on top of the reader.

An error is kept beside the result: a loop that finds no further element ends well, and the error stays set.
-/

namespace Rrdtool.Restore

open Parse

/-- A node, as `xmlTextReaderRead` reports it. -/
inductive XmlNode : Type where
  /-- `XML_READER_TYPE_ELEMENT` -/
  | element (name : Text)
  /-- `XML_READER_TYPE_END_ELEMENT` -/
  | endElement (name : Text)
  /-- `XML_READER_TYPE_TEXT` -/
  | text (value : Text)
  /-- any other type -/
  | other
  deriving DecidableEq

/-- An element with a text. -/
def leaf (name text : String) : List XmlNode := [.element name.toList, .text text.toList, .endElement name.toList, .other]

/-- An element with elements. -/
def block (name : String) (content : List XmlNode) : List XmlNode :=
  .element name.toList :: .other :: content ++ [.endElement name.toList, .other]

/-- The errors that `rrd_restore` sets. The numbers of lines are left out. -/
inductive RestoreError : Type where
  /-- `expected element but found text '%s'` -/
  | foundText (value : Text)
  /-- `the xml ended while we were looking for an element` -/
  | xmlEnded
  /-- `expected <%s> element but found <%s>` -/
  | element (found expected : Text)
  /-- `expected </%s> end element but found <%s>` -/
  | endElement (expected found : Text)
  /-- `expected a value but found a <%s> element` -/
  | foundElement (name : Text)
  /-- `file ended while looking for text` -/
  | fileEnded
  /-- `get_xml_time_t from '%s' %s` -/
  | timeT (text : Text)
  /-- `get_xml_ulong from '%s' %s` -/
  | ulong (text : Text)
  /-- `get_xml_double from '%s' %s` -/
  | double (text : Text)
  /-- `parse_tag_rra_cdp_prep: Unknown tag: %s` -/
  | cdpPrepTag (element : Text)
  /-- `found unexpected tag: %s` -/
  | databaseTag (element : Text)
  /-- `parse_tag_rra_params: Unknown tag: %s` -/
  | paramsTag (element : Text)
  /-- `parse_tag_rra_cf: Unknown consolidation function: %s` -/
  | unknownCf (name : Text)
  /-- `parse_tag_rra: Unknown tag: %s` -/
  | rraTag (element : Text)
  /-- an error of `parseCDEF_DS` -/
  | cdef (e : CdefError)
  /-- `parse_tag_ds_type: Unknown data source type: %s` -/
  | unknownDst (name : Text)
  /-- `parse_tag_ds: All data source definitions MUST precede the RRA definitions!` -/
  | dsAfterRra
  /-- `parse_tag_ds: Unknown tag: %s` -/
  | dsTag (element : Text)
  /-- `parse_tag_rrd: Unknown tag: %s` -/
  | rrdTag (element : Text)
  deriving DecidableEq

/-- The arrays that are filled while a document is read. -/
inductive Area : Type where
  /-- `ds_def[].par` -/
  | dsPar
  /-- `rra_def[].par` -/
  | rraPar
  /-- the `cdp_prep` of an RRA -/
  | cdpPrep
  /-- the same, as an array of violations -/
  | history
  /-- `rrd_value` -/
  | rows
  deriving DecidableEq

/-- A write into an array, in bytes. -/
structure Write : Type where
  /-- the array -/
  area : Area
  /-- where it begins -/
  first : ℕ
  /-- how long it is -/
  length : ℕ
  /-- how long the array is -/
  size : ℕ
  deriving DecidableEq

/-- The reader, in the middle of a document. -/
structure Reader : Type where
  /-- what is still to be read -/
  rest : List XmlNode
  /-- the node that it is on -/
  node : Option XmlNode
  /-- `rrd_get_error` -/
  error : Option RestoreError
  /-- what has been written into the arrays, the last write first -/
  writes : List Write
  deriving DecidableEq

/-- A write. -/
def write (w : Write) : Parser Reader Unit := fun r => (some (), { r with writes := w :: r.writes })

/-- `rrd_set_error`, where nothing else is to be done than to go back. -/
def setError {α : Type} (e : RestoreError) : Parser Reader α := fun r => (none, { r with error := some e })

/-- `xmlStrcasecmp(a, b) == 0` -/
def isTag (a b : Text) : Bool := a.map CStr.tolower = b.map CStr.tolower

/-- The loop of `get_xml_element`. -/
def readElement (r : Reader) : List XmlNode → Option Text × Reader
  | [] => (none, { r with rest := [], node := none, error := some .xmlEnded })
  | .text value :: rest =>
    (none, { r with rest := rest, node := some (.text value), error := some (.foundText value) })
  | .element name :: rest => (some name, { r with rest := rest, node := some (.element name) })
  | .endElement name :: rest => (some ('/' :: name), { r with rest := rest, node := some (.endElement name) })
  | .other :: rest => readElement r rest

/-- `get_xml_element`: the next tag; that of an end has a slash in front. -/
def getXmlElement : Parser Reader Text := fun r => readElement r r.rest

/-- `expect_element` -/
def expectElement (expName : Text) : Parser Reader Unit :=
  bind getXmlElement fun name => if isTag name expName then ret () else setError (.element name expName)

/-- `expect_element_end`: the reader may be on the end already. -/
def expectElementEnd (expName : Text) : Parser Reader Unit :=
  let tag : Parser Reader Text := fun r =>
    match r.node with
    | some (.endElement name) => (some ('/' :: name), r)
    | _ => getXmlElement r
  bind tag fun name =>
    if name.head? = some '/' ∧ isTag name.tail expName then ret () else setError (.endElement expName name)

/-- The first word of a text. -/
def firstWord (text : Text) : Text := (text.dropWhile CStr.isspace).takeWhile fun c => !CStr.isspace c

/-- The loop of `get_xml_text`. -/
def readText (r : Reader) : List XmlNode → Option Text × Reader
  | [] => (none, { r with rest := [], node := none, error := some .fileEnded })
  | .element name :: rest =>
    (none, { r with rest := rest, node := some (.element name), error := some (.foundElement name) })
  | .endElement name :: rest => (some [], { r with rest := rest, node := some (.endElement name) })
  | .text value :: rest => (some (firstWord value), { r with rest := rest, node := some (.text value) })
  | .other :: rest => readText r rest

/-- `get_xml_text`: the first word of the next text. An element without text has the empty one. -/
def getXmlText : Parser Reader Text := fun r => readText r r.rest

/-- `get_xml_string`: as much of a text as `strncpy` takes. -/
def getXmlString (maxLen : ℕ) : Parser Reader Text := map getXmlText fun text => text.take maxLen

/-- `get_xml_time_t`, where a `time_t` has 64 bits -/
def getXmlTimeT : Parser Reader ℤ :=
  bind getXmlText fun text =>
    match CStr.strtoll text with
    | some z => ret z
    | none => setError (.timeT text)

/-- `get_xml_ulong` -/
def getXmlUlong : Parser Reader ℕ :=
  bind getXmlText fun text =>
    match CStr.strtoul text with
    | some n => ret n
    | none => setError (.ulong text)

/-- `xmlStrcasestr(text, word) != NULL` -/
def hasWord (text word : Text) : Bool :=
  (List.range (text.length + 1)).any fun i => isTag ((text.drop i).take word.length) word

/-- `get_xml_double` -/
def getXmlDouble : Parser Reader RrdValue :=
  bind getXmlText fun text =>
    if hasWord text "nan".toList then ret dnan
    else if hasWord text "-inf".toList then ret .neginf
    else if hasWord text "+inf".toList || hasWord text "inf".toList then ret .inf
    else
      let conv := CStr.strtod text
      if conv.erange then setError (.double text) else ret conv.value

end Rrdtool.Restore
