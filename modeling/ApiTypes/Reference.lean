/-
# References

A reference is a document and a fragment, with `#` between them.  It is local when its
document is the one it stands in: when it names none, or names the address that the document
gives itself.  A document is compared with that address as text, as addresses, and, where
neither has a scheme and a host, as file paths.

How a text is read as an address is not settled here, as the names of hosts take tables of their
own.  An address comes with its reading, and everything that follows holds for every reading.

* `OwnAddress` is the address of a document, with the way in which addresses are read.
* `Reference.namesSelf` compares a document part with the address of the document.
* `Reference.local?` gives the fragment of a local reference, with its `#`.
-/
import ApiTypes.FilePath
import ApiTypes.Uri

namespace ApiTypes

/-- The address that a document gives itself, and how addresses are read where another one is
compared with it. -/
structure OwnAddress where
  text : String
  read? : String → Option Uri

/-- Where nothing is said about its reading, an address is read by `Uri.parse?`. -/
instance : Coe String OwnAddress := ⟨fun text => ⟨text, Uri.parse?⟩⟩

namespace Reference

/-- Whether a text has a scheme with slashes somewhere. -/
def hasScheme (text : String) : Bool :=
  let rec go : List Char → Bool
    | ':' :: '/' :: '/' :: _ => true
    | _ :: cs => go cs
    | [] => false
  go text.toList

/-- Whether a document part names the document whose own address is `self`. -/
def namesSelf (document : String) (self : OwnAddress) : Bool :=
  if document = self.text then true
  else
    match self.read? document, self.read? self.text with
    | some a, some b => a = b
    | some a, none =>
      if self.text.toList.head? = some '/' then a.path = self.text
      else asFiles
    | none, _ => asFiles
where
  /-- The comparison as file paths, which have no scheme. -/
  asFiles : Bool :=
    !hasScheme self.text && !hasScheme document && FilePath.same document self.text

/-- The fragment of a reference into the document itself, with its `#`. -/
def local? (self : Option OwnAddress) (reference : String) : Option (List Char) :=
  match Text.cutAtFirst '#' reference.toList with
  | ([], fragment) => fragment.map ('#' :: ·)
  | (document, some fragment) =>
    match self with
    | some self => if namesSelf (String.ofList document) self then some ('#' :: fragment) else none
    | none => none
  | (_, none) => none

end Reference

end ApiTypes
