import Seiran.Framework.Json
import Seiran.Model.Mention.Mention

/-!
# What comes with a note

The parts of a `Note` that are stored beside its row: the content warning and the
poll (`note_input.rs`), the hashtags of its text (`hashtag.rs`), the link cards and
the attachments (`note_save.rs`, `seiran_post.rs`), and the local users it mentions.
The extension `seiranPost` is taken as it was read.
-/

namespace Seiran.CreateNote

open Mention (Text Unicode pushNew toAsciiLowercase)

structure SeiranPostLinkCard where
  url : String
  title : String
  description : String
  thumbnailUrl : Option String
deriving DecidableEq

/-- The fields of `SeiranPost` that are stored beside the row -/
structure SeiranPost where
  poll : Option Json
  linkCards : List SeiranPostLinkCard
  contentWarning : Option String
  counterpartPostId : Option String

def maxLinkCardsPerPost : Nat := 5

/-! ## Polls -/

/-- A choice of `oneOf` or `anyOf` -/
def pollOption (choice : Json) : Option Json :=
  (choice.getStr "name").map fun name =>
    .obj [("name", .str name),
      ("votes", .num (.ofI64 (max 0 (((choice.get "replies").get "totalItems").asI64.getD 0))))]

def strOrNull (s : Option String) : Json := (s.map Json.str).getD .null

/-- The object of `normalize_ap_poll` -/
def pollJson (note : Json) (choices : List Json) (multiple : Bool) : Option Json :=
  let options := choices.filterMap pollOption
  if options.isEmpty then none
  else some (.obj
    [("closed", strOrNull (note.getStr "closed")),
      ("endTime", strOrNull (note.getStr "endTime")),
      ("multiple", .bool multiple),
      ("options", .arr options),
      ("votersCount", (((note.get "votersCount").asI64.map (Json.num ∘ .ofI64))).getD .null)])

def normalizeApPoll (note : Json) : Option Json :=
  if note.getStr "type" ≠ some "Question" then none
  else match (note.get "oneOf").asArray, (note.get "anyOf").asArray with
    | some choices, _ => pollJson note choices false
    | none, some choices => pollJson note choices true
    | none, none => none

/-- The content warning and the poll -/
def contentMetadata (note : Json) : Option SeiranPost → Option String × Option Json
  | some sp => (sp.contentWarning, sp.poll)
  | none => ((note.getStr "summary").filter (· ≠ ""), normalizeApPoll note)

/-! ## Hashtags -/

/-- `#` is not one after a letter, a digit, `_` or `/`. -/
def mayPrecedeTag : Option Char → Bool
  | none => true
  | some c => !(c.isAlphanum || c == '_' || c == '/')

/-- The tags of what follows the character `prev` -/
def hashtagsFrom (U : Unicode) : Nat → Option Char → Text → List Text
  | 0, _, _ => []
  | _, _, [] => []
  | fuel + 1, prev, c :: rest =>
    let tag := rest.takeWhile fun d => U.isAlphanumeric d || d == '_'
    if c = '#' ∧ mayPrecedeTag prev ∧ tag ≠ [] then
      (if tag.any U.isAlphabetic then [U.toLowercase tag] else []) ++
        hashtagsFrom U fuel tag.getLast? (rest.drop tag.length)
    else hashtagsFrom U fuel (some c) rest

def extractHashtags (U : Unicode) (text : Text) : List Text :=
  (hashtagsFrom U text.length none text).foldl pushNew []

/-! ## Link cards -/

/-- What follows a `[` that begins a link `[text](url)`: the text, the URL and the rest -/
def linkAfterBracket (U : Unicode) (rest : Text) : Option (Text × Text × Text) :=
  let text := rest.takeWhile (· != ']')
  let after := rest.drop text.length
  let target := after.drop 2
  let url := target.takeWhile fun c => !(c == ')' || U.isWhitespace c)
  let scheme := if "https://".toList.isPrefixOf url then 8
    else if "http://".toList.isPrefixOf url then 7 else url.length
  if "](".toList.isPrefixOf after ∧ scheme < url.length ∧
      (target.drop url.length).head? = some ')' then
    some (text, url, target.drop (url.length + 1))
  else none

/-- `captures_iter`: whether a `!` stands before the link, its text and its URL -/
def linkCaptures (U : Unicode) : Nat → Option Char → Text → List (Bool × Text × Text)
  | 0, _, _ => []
  | _, _, [] => []
  | fuel + 1, prev, c :: rest =>
    match (if c = '[' then linkAfterBracket U rest else none) with
    | some (text, url, rest) => (prev == some '!', text, url) :: linkCaptures U fuel (some ')') rest
    | none => linkCaptures U fuel (some c) rest

/-- A further URL, where there is room and it is new -/
def pushUrl (max : Nat) (urls : List Text) (url : Text) : List Text :=
  if max ≤ urls.length then urls else pushNew urls url

def extractLinkCardUrls (U : Unicode) (body : Text) (max : Nat) : List Text :=
  (linkCaptures U body.length none body).foldl (fun urls (image, text, url) =>
    if image || text.head? == some '#' then urls else pushUrl max urls url) []

def buildLinkCardUrls (U : Unicode) (body : Text) (primaryUrl : Option Text) (max : Nat) :
    List Text :=
  (extractLinkCardUrls U body max).foldl (pushUrl max) primaryUrl.toList

/-! ## Attachments -/

structure RemoteAttachment where
  url : String
  mimeType : Option String
  isSensitive : Bool
  position : Int16
deriving DecidableEq

/-- The type by the extension of the URL -/
def mimeTypeOfExtension (ext : String) : Option String :=
  if ext ∈ ["mp4", "m4v"] then some "video/mp4"
  else if ext = "webm" then some "video/webm"
  else if ext = "mov" then some "video/quicktime"
  else if ext = "mp3" then some "audio/mpeg"
  else if ext ∈ ["ogg", "oga"] then some "audio/ogg"
  else if ext = "wav" then some "audio/wav"
  else if ext = "m4a" then some "audio/mp4"
  else if ext = "flac" then some "audio/flac"
  else none

/-- `guess_attachment_mime_type` -/
def guessAttachmentMimeType (att : Json) (url : String) : Option String :=
  match (att.getStr "mediaType").filter (· ≠ "") with
  | some mediaType => some mediaType
  | none =>
    let ext := (url.toList.reverse.takeWhile (· ≠ '.')).reverse
    mimeTypeOfExtension (String.ofList (toAsciiLowercase ext))

/-- `att["url"].as_str().or_else(|| att.as_str())` -/
def attachmentUrl : Json → String
  | .str url => url
  | att => (att.getStr "url").getD ""

def remoteAttachment (note att : Json) (position : Nat) : Option RemoteAttachment :=
  let url := attachmentUrl att
  if url = "" then none
  else some {
    url
    mimeType := guessAttachmentMimeType att url
    isSensitive := (att.get "sensitive").asBool.getD false || (note.get "sensitive").asBool.getD false
    position := Int16.ofNat position }

/-- The rows of `save_remote_attachments` -/
def remoteAttachments (note : Json) : List RemoteAttachment :=
  (((note.get "attachment").asArray.getD []).zipIdx).filterMap fun (att, position) =>
    remoteAttachment note att position

/-! ## Mentions -/

/-- `extract_local_username` -/
def extractLocalUsername (actorUri localDomain : Text) : Option Text :=
  let start := "https://".toList ++ localDomain ++ "/users/".toList
  if start.isPrefixOf actorUri then
    let rest := actorUri.drop start.length
    if rest ≠ [] ∧ '/' ∉ rest then some rest else none
  else none

def extractMentionedLocalUsernames (tags : List Json) (localDomain : Text) : List Text :=
  (tags.filter fun tag => tag.getStr "type" == some "Mention").filterMap fun tag =>
    (tag.getStr "href").bind fun href => extractLocalUsername href.toList localDomain

end Seiran.CreateNote
