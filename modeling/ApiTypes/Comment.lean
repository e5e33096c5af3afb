/-
# Comments

What a description says in words becomes the comment of a member.  Texts are trimmed, and a
text without anything but white space says nothing; where nothing is said there is no comment.

* `Comment.ofTraits`, `Comment.ofOperation`, `Comment.ofParameter`, `Comment.ofResponse` and
  `Comment.ofHeader` give the comments of the parts of a description.
-/
import ApiTypes.Json.Printer
import ApiTypes.Model.Basic
import ApiTypes.Text.Basic

namespace ApiTypes.Comment

/-! ## 1. Lines -/

/-- The trimmed text, if anything is left of it. -/
def said (text : Option String) : Option String :=
  (text.map Text.trim).filter (· ≠ "")

/-- A value in a comment: texts as they are, collections over several lines. -/
def shownValue : Json → String
  | .string s => s
  | .array items => Json.indented (.array items)
  | .object fields => Json.indented (.object fields)
  | v => v.compact

/-- The line of a description; below a heading it is marked. -/
def descriptionLine (description : Option String) (heading : Bool) : Option String :=
  (said description).map fun d => if heading then "@description " ++ d else d

/-- The line that marks something outdated. -/
def deprecatedLine (deprecated : Bool) : Option String :=
  if deprecated then some "@deprecated" else none

/-- The line that shows a value under a mark. -/
def valueLine (mark : String) (value : Option Json) : Option String :=
  value.map fun v => mark ++ " " ++ shownValue v

/-- The lines that are there, as one text. -/
def ofLines (lines : List (Option String)) : Option String :=
  match lines.filterMap id with
  | [] => none
  | lines => some (Text.join "\n" lines)

/-! ## 2. Parts -/

/-- The comment of a schema. -/
def ofTraits (t : Traits) : Option String :=
  ofLines [said t.title, (said t.format).map ("Format: " ++ ·), deprecatedLine t.deprecated,
    descriptionLine t.description t.title.isSome, valueLine "@default" t.default,
    valueLine "@example" t.sample]

/-- The comment of an operation. -/
def ofOperation (o : Operation) : Option String :=
  ofLines [said o.summary, deprecatedLine o.deprecated,
    descriptionLine o.description o.summary.isSome]

/-- The comment of the schema of a part that has nothing to say itself. -/
def ofSchema? (s : Option Schema) : Option String := s.bind fun s => ofTraits s.traits

/-- The comment of a parameter, or of its schema. -/
def ofParameter (p : Parameter) : Option String :=
  (ofLines [deprecatedLine p.deprecated, said p.description,
    valueLine "@example" p.sample]).or (ofSchema? p.schema)

/-- The comment of a response, with the first sample of its content. -/
def ofResponse (r : Response) : Option String :=
  ofLines [said r.description,
    valueLine "@example" ((r.content.getD []).findSome? fun (_, m) => m.sample)]

/-- The comment of a header, or of its schema. -/
def ofHeader (h : Header) : Option String :=
  (ofLines [deprecatedLine h.deprecated, said h.description]).or (ofSchema? h.schema)

end ApiTypes.Comment
