import Seiran.Framework.Json
import Seiran.Framework.Splice
import Seiran.Model.Lists.Publish

/-!
# The HTML of a note

`tokenize_anchors`, `ap_content_to_markdown_body` and `rewrite_mention_hashtag_hrefs`
(`inbound_activity_process/content.rs`). A string is the list of its characters. What is
left of the list stands for `chars` and `i`; a slice at byte offsets is `none` where it
panics.
-/

namespace Seiran.Content

open Lists (isWhitespace)

abbrev Str := List Char

/-- `html_escape::decode_html_entities`, `urlencoding::encode` and `str::to_lowercase` -/
structure Env where
  decodeHtmlEntities : Str → Str
  urlEncode : Str → Str
  toLowercase : Str → Str

/-! ## The functions of `str` -/

def trimStart (s : Str) : Str := s.dropWhile isWhitespace

def trimEnd (s : Str) : Str := (s.reverse.dropWhile isWhitespace).reverse

def trim (s : Str) : Str := ((trimStart s).reverse.dropWhile isWhitespace).reverse

def toAsciiLowercase (s : Str) : Str := s.map Char.toLower

def eqIgnoreAsciiCase (s t : Str) : Bool := toAsciiLowercase s = toAsciiLowercase t

def trimEndMatches (c : Char) (s : Str) : Str := (s.reverse.dropWhile (· = c)).reverse

def trimStartMatches (c : Char) (s : Str) : Str := s.dropWhile (· = c)

def splitWhitespace (s : Str) : List Str := (s.splitOnP isWhitespace).filter fun t => !t.isEmpty

/-- The byte offset of the first occurrence -/
def find (needle : Str) : Str → Option Nat
  | [] => if needle.isEmpty then some 0 else none
  | c :: cs =>
    if needle.isPrefixOf (c :: cs) then some 0 else (find needle cs).map (c.utf8Size + ·)

def len (s : Str) : Nat := Splice.size Char.utf8Size s

/-- `&s[n..]` -/
def sliceFrom (s : Str) (n : Nat) : Option Str := (Splice.split Char.utf8Size s n).map Prod.snd

/-- `&s[..n]` -/
def sliceTo (s : Str) (n : Nat) : Option Str := (Splice.split Char.utf8Size s n).map Prod.fst

def asBytes (s : Str) : List UInt8 := s.flatMap String.utf8EncodeChar

def isAsciiAlphanumeric (b : UInt8) : Bool :=
  (48 ≤ b && b ≤ 57) || (65 ≤ b && b ≤ 90) || (97 ≤ b && b ≤ 122)

/-! ## Attributes -/

/-- The quoted value after the name of an attribute -/
def quotedValue (after : Str) : Option (Option Str) :=
  match trimStart after with
  | '=' :: afterTrimmed => do
    let valuePart := trimStart (← sliceFrom ('=' :: afterTrimmed) 1)
    match valuePart with
    | quote :: _ =>
      if quote = '"' ∨ quote = '\'' then
        let rest ← sliceFrom valuePart quote.utf8Size
        match find [quote] rest with
        | some stop => return some (← sliceTo rest stop)
        | none => return none
      else return none
    | [] => return none
  | _ => some none

/-- The value of an attribute whose name is at an offset, if it is one -/
def valueAt (lower tagInner attrName : Str) (idx : Nat) : Option (Option Str) := do
  let boundaryOk ← if idx = 0 then some true
    else ((asBytes lower)[idx - 1]?).map fun b => !isAsciiAlphanumeric b
  let after ← sliceFrom tagInner (idx + len attrName)
  if boundaryOk then quotedValue after else some none

/-- The loop of `extract_attr`, which does not end where the rounds run out -/
def extractAttrLoop (lower tagInner attrName attrLower : Str) : Nat → Nat → Option (Option Str)
  | 0, _ => none
  | rounds + 1, searchFrom => do
    match find attrLower (← sliceFrom lower searchFrom) with
    | none => return none
    | some relIdx =>
      match ← valueAt lower tagInner attrName (searchFrom + relIdx) with
      | some value => return some value
      | none =>
        extractAttrLoop lower tagInner attrName attrLower rounds
          (searchFrom + relIdx + len attrName)

def extractAttrChecked (tagInner attrName : Str) : Option (Option Str) :=
  extractAttrLoop (toAsciiLowercase tagInner) tagInner attrName (toAsciiLowercase attrName)
    (tagInner.length + 1) 0

/-- It does not panic (`extractAttrChecked_isSome`). -/
def extractAttr (tagInner attrName : Str) : Option Str :=
  (extractAttrChecked tagInner attrName).getD none

def extractHrefAttr (tagInner : Str) : Option Str := extractAttr tagInner "href".toList

def extractClassTokens (tagInner : Str) : List Str :=
  ((extractAttr tagInner "class".toList).map fun c =>
    (splitWhitespace c).map toAsciiLowercase).getD []

/-! ## Mentions -/

/-- `t[key].as_str()` -/
def str (t : Json) (key : String) : Option Str := (t.getStr key).map String.toList

def slashes : Str := "://".toList

/-- The part of a text up to a separator, and what comes after it -/
def splitOnce (sep : Str) : Str → Option (Str × Str)
  | [] => if sep.isEmpty then some ([], []) else none
  | c :: cs =>
    if sep.isPrefixOf (c :: cs) then some ([], (c :: cs).drop sep.length)
    else (splitOnce sep cs).map fun p => (c :: p.1, p.2)

def extractHost (url : Str) : Option Str := do
  let (_, withoutScheme) ← splitOnce slashes url
  -- `split("://").nth(1)` ends at another `://`
  let withoutScheme := ((splitOnce slashes withoutScheme).map Prod.fst).getD withoutScheme
  let host := withoutScheme.takeWhile fun c => !(['/', '?', '#'].contains c)
  if host.isEmpty then none else some host

def qualifyMentionName (name href : Str) : Str :=
  let username := trimStartMatches '@' name
  if username.contains '@' then name
  else
    match extractHost href with
    | some host => '@' :: username ++ '@' :: host
    | none => name

def isMention (t : Json) : Bool := str t "type" = some "Mention".toList

def findMentionNameByHref (href : Str) (tags : List Json) : Option Str :=
  (tags.find? fun t => isMention t ∧ str t "href" = some href).bind fun t =>
    (str t "name").map fun name => qualifyMentionName name href

/-- The name without its `@`s, up to the next -/
def usernameOf (name : Str) : Str := (trimStartMatches '@' name).takeWhile (· ≠ '@')

/-- The name of a mention, with `""` for a `name` or `href` that is missing -/
def qualified (t : Json) : Str :=
  qualifyMentionName ((str t "name").getD []) ((str t "href").getD [])

def findMentionNameByInnerText (anchorHref innerText : Str) (tags : List Json) : Option Str :=
  let innerUsername := usernameOf innerText
  if innerUsername.isEmpty then none
  else
    let mentions := tags.filter isMention
    let usernameMatches (t : Json) : Bool :=
      ((str t "name").map fun name => eqIgnoreAsciiCase (usernameOf name) innerUsername).getD false
    let onHost (host : Str) (t : Json) : Bool :=
      ((str t "href").bind extractHost).any fun h => eqIgnoreAsciiCase h host
    match (extractHost anchorHref).bind fun host =>
        mentions.find? fun t => usernameMatches t && onHost host t with
    | some found => some (qualified found)
    | none => (mentions.find? usernameMatches).map qualified

def resolveApMentionText (href innerText : Str) (isMentionClass isHashtag : Bool)
    (tags : List Json) (senderDomain : Str) : Option Str :=
  if isHashtag then none
  else
    match findMentionNameByHref href tags with
    | some name => some name
    | none =>
      if !isMentionClass then none
      else
        match findMentionNameByInnerText href innerText tags with
        | some name => some name
        | none =>
          let username := trimStartMatches '@' innerText
          if username.isEmpty then none
          else if username.contains '@' ∨ senderDomain.isEmpty then some ('@' :: username)
          else some ('@' :: username ++ '@' :: senderDomain)

/-! ## Tags -/

def tagBreakText (tagInner : Str) : Str :=
  let trimmed := trim (trimEndMatches '/' (trim tagInner))
  if toAsciiLowercase trimmed = "br".toList then ['\n']
  else if toAsciiLowercase trimmed = "/p".toList ∨ toAsciiLowercase trimmed = "/div".toList then
    ['\n', '\n']
  else [' ']

/-- `chars[i + 1..j]`: up to the next `>`, or to the end -/
def tagInner (chars : Str) : Str := chars.takeWhile (· ≠ '>')

/-- `chars[after_tag..]` -/
def afterTag (chars : Str) : Str := (chars.dropWhile (· ≠ '>')).drop 1

/-- `chars[i..after_tag]` -/
def wholeTag (chars : Str) : Str := '<' :: tagInner chars ++ (chars.dropWhile (· ≠ '>')).take 1

def isAnchorOpen (tagInner : Str) : Bool :=
  let trimmed := trimStart tagInner
  let lower := toAsciiLowercase trimmed
  (lower = ['a'] || ['a', ' '].isPrefixOf lower || ['a', '\t'].isPrefixOf lower) &&
    !(['/'].isSuffixOf trimmed)

def isMentionClass (tagInner : Str) : Bool :=
  (extractClassTokens tagInner).any fun c => c = "mention".toList || c = "u-url".toList

def isHashtag (tagInner : Str) : Bool :=
  ((extractClassTokens tagInner).any fun c => c = "hashtag".toList) ||
    ((extractAttr tagInner "rel".toList).map fun r =>
      (splitWhitespace r).any fun t => eqIgnoreAsciiCase t "tag".toList).getD false

/-- `chars[i..]` starts with `</a`. -/
def isClosing (chars : Str) : Bool :=
  match chars with
  | '<' :: rest => toAsciiLowercase (rest.take 2) = ['/', 'a']
  | _ => false

theorem length_afterTag_le (chars : Str) : (afterTag chars).length ≤ chars.length := by
  rw [afterTag, List.length_drop]
  exact Nat.le_trans (Nat.sub_le _ _) (List.dropWhile_sublist _).length_le

/-! ## `tokenize_anchors` -/

structure Link where
  href : Str
  text : Str
  isMentionClass : Bool
  isHashtag : Bool
deriving DecidableEq

inductive HtmlSegment where
  | text (t : Str)
  | link (l : Link)
deriving DecidableEq

/-- The loop up to `</a>`: the text, and what is left -/
def tokenizeInner (chars innerText : Str) (inInnerTag : Bool) : Str × Str :=
  match chars with
  | [] => (innerText, [])
  | c :: rest =>
    if isClosing (c :: rest) then (innerText, afterTag rest)
    else if c = '>' then tokenizeInner rest innerText false
    else
      let inInnerTag := inInnerTag || c = '<'
      tokenizeInner rest (if inInnerTag then innerText else innerText ++ [c]) inInnerTag

theorem length_tokenizeInner_le (chars innerText : Str) (inInnerTag : Bool) :
    (tokenizeInner chars innerText inInnerTag).2.length ≤ chars.length := by
  induction chars generalizing innerText inInnerTag with
  | nil => exact Nat.le_refl 0
  | cons c rest ih =>
    rw [tokenizeInner]
    split
    · exact Nat.le_succ_of_le (length_afterTag_le rest)
    · split <;> exact Nat.le_succ_of_le (ih _ _)

section

variable (E : Env)

/-- `text_buf` where it is not empty -/
def takeText (textBuf : Str) : List HtmlSegment := if textBuf.isEmpty then [] else [.text textBuf]

/-- The segment of an anchor with this text -/
def anchorSegment (tagInner innerText : Str) : List HtmlSegment :=
  match extractHrefAttr tagInner with
  | some href =>
    if innerText.isEmpty then []
    else [.link { href, text := innerText, isMentionClass := isMentionClass tagInner,
                  isHashtag := isHashtag tagInner }]
  | none => takeText innerText

def tokenizeLoop (chars textBuf : Str) : List HtmlSegment :=
  match chars with
  | [] => takeText textBuf
  | c :: rest =>
    if c ≠ '<' then tokenizeLoop rest (textBuf ++ [c])
    else if !isAnchorOpen (tagInner rest) then
      tokenizeLoop (afterTag rest) (textBuf ++ tagBreakText (tagInner rest))
    else
      let inner := tokenizeInner (afterTag rest) [] false
      takeText textBuf ++ anchorSegment (tagInner rest) (E.decodeHtmlEntities (trim inner.1)) ++
        tokenizeLoop inner.2 [' ']
termination_by chars.length
decreasing_by
  · exact Nat.lt_succ_self _
  · exact Nat.lt_succ_of_le (length_afterTag_le rest)
  · exact Nat.lt_succ_of_le
      (Nat.le_trans (length_tokenizeInner_le _ _ _) (length_afterTag_le rest))

def tokenizeAnchors (html : Str) : List HtmlSegment := tokenizeLoop E html []

/-! ## `ap_content_to_markdown_body` -/

variable (tags : List Json) (senderDomain : Str)

def Link.mention (l : Link) : Option Str :=
  resolveApMentionText l.href l.text l.isMentionClass l.isHashtag tags senderDomain

def Link.markdown (l : Link) : Str :=
  match l.mention tags senderDomain with
  | some name => name
  | none => '[' :: l.text ++ [']', '('] ++ l.href ++ [')']

def HtmlSegment.markdown : HtmlSegment → Str
  | .text t => t
  | .link l => l.markdown tags senderDomain

/-- The loop over `joined`, with `newline_run` -/
def joinNewlines : Str → Nat → Str
  | [], _ => []
  | c :: cs, run =>
    if c = '\n' then joinNewlines cs (run + 1)
    else List.replicate (min run 2) '\n' ++ c :: joinNewlines cs 0

def normalizeWhitespacePreservingNewlines (s : Str) : Str :=
  let joined := List.intercalate ['\n']
    ((s.splitOn '\n').map fun line => List.intercalate [' '] (splitWhitespace line))
  trimEndMatches '\n' (trimStartMatches '\n' (joinNewlines joined 0))

/-- `out`, with its references decoded -/
def markdownText (html : Str) : Str :=
  E.decodeHtmlEntities
    ((tokenizeAnchors E html).flatMap fun seg => seg.markdown tags senderDomain)

def apContentToMarkdownBody (html : Str) : Str :=
  normalizeWhitespacePreservingNewlines (markdownText E tags senderDomain html)

/-! ## `rewrite_mention_hashtag_hrefs` -/

/-- `s.replace(c, by_)` -/
def replace (c : Char) (by_ s : Str) : Str := s.flatMap fun x => if x = c then by_ else [x]

def escapeHtmlAttr (s : Str) : Str :=
  replace '>' "&gt;".toList (replace '<' "&lt;".toList (replace '"' "&quot;".toList
    (replace '&' "&amp;".toList s)))

def escapeHtmlText (s : Str) : Str := escapeHtmlAttr s

structure RewriteInner where
  plainText : Str
  /-- `chars[inner_start..inner_end]`, or up to the end where there is no `</a>` -/
  rawInner : Str
  closed : Bool
  rest : Str

/-- The loop up to `</a>` -/
def rewriteInner (chars plainText rawInner : Str) (inInnerTag : Bool) : RewriteInner :=
  match chars with
  | [] => { plainText, rawInner, closed := false, rest := [] }
  | c :: rest =>
    if isClosing (c :: rest) then { plainText, rawInner, closed := true, rest := afterTag rest }
    else if c = '>' then rewriteInner rest plainText (rawInner ++ [c]) false
    else if c = '<' then rewriteInner rest plainText (rawInner ++ [c]) true
    else if inInnerTag then rewriteInner rest plainText (rawInner ++ [c]) true
    else rewriteInner rest (plainText ++ [c]) (rawInner ++ [c]) false

theorem length_rewriteInner_le (chars plainText rawInner : Str) (inInnerTag : Bool) :
    (rewriteInner chars plainText rawInner inInnerTag).rest.length ≤ chars.length := by
  induction chars generalizing plainText rawInner inInnerTag with
  | nil => exact Nat.le_refl 0
  | cons c rest ih =>
    rw [rewriteInner]
    split
    · exact Nat.le_succ_of_le (length_afterTag_le rest)
    · split
      · exact Nat.le_succ_of_le (ih _ _ _)
      · split
        · exact Nat.le_succ_of_le (ih _ _ _)
        · split <;> exact Nat.le_succ_of_le (ih _ _ _)

/-- `new_href` -/
def newHref (href decodedText : Str) (isMentionClass isHashtag : Bool) : Option Str :=
  if isHashtag then
    let tagText := trimStartMatches '#' decodedText
    if tagText.isEmpty then none else some ("/tags/".toList ++ E.urlEncode (E.toLowercase tagText))
  else
    (resolveApMentionText href decodedText isMentionClass isHashtag tags senderDomain).map
      fun name => '/' :: '@' :: trimStartMatches '@' name

def openAnchor (href : Str) : Str := "<a href=\"".toList ++ href ++ "\">".toList

def rewriteLoop (chars : Str) : Str :=
  match chars with
  | [] => []
  | c :: rest =>
    if c ≠ '<' then c :: rewriteLoop rest
    else if !isAnchorOpen (tagInner rest) then wholeTag rest ++ rewriteLoop (afterTag rest)
    else
      let href := (extractHrefAttr (tagInner rest)).getD []
      let inner := rewriteInner (afterTag rest) [] [] false
      if inner.closed then
        let decodedText := E.decodeHtmlEntities (trim inner.plainText)
        let newHref := newHref E tags senderDomain href decodedText (isMentionClass (tagInner rest))
          (isHashtag (tagInner rest))
        openAnchor ((newHref.map escapeHtmlAttr).getD href) ++ inner.rawInner ++ "</a>".toList ++
          rewriteLoop inner.rest
      else openAnchor href ++ inner.rawInner ++ rewriteLoop inner.rest
termination_by chars.length
decreasing_by
  · exact Nat.lt_succ_self _
  · exact Nat.lt_succ_of_le (length_afterTag_le rest)
  · exact Nat.lt_succ_of_le
      (Nat.le_trans (length_rewriteInner_le _ _ _ _) (length_afterTag_le rest))
  · exact Nat.lt_succ_of_le
      (Nat.le_trans (length_rewriteInner_le _ _ _ _) (length_afterTag_le rest))

def rewriteMentionHashtagHrefs (html : Str) : Str := rewriteLoop E tags senderDomain html

end

end Seiran.Content
