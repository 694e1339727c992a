import DartKernel.StringTable

namespace DartKernel

structure MetadataMapping where
  tag : StringRef
  /-- The offset of a node in the file and of its payload in the blob. -/
  entries : List (UInt32 × UInt32)
  deriving DecidableEq, Repr

namespace MetadataMapping

def payloadOffset? (mapping : MetadataMapping) (node : UInt32) : Option UInt32 :=
  mapping.entries.lookup node

def pairsOnto : List UInt32 → List (UInt32 × UInt32) → List (UInt32 × UInt32)
  | second :: first :: rest, done => pairsOnto rest ((first, second) :: done)
  | _, done => done

/-- `count` mappings from words that are given last one first, in front of `done`. None when the
words run out. -/
def backwards? : (count : Nat) → (words : List UInt32) → (done : List MetadataMapping) →
    Option (List MetadataMapping)
  | 0, _, done => some done
  | _ + 1, [], _ => none
  | count + 1, length :: words, done =>
    match words.drop (2 * length.toNat) with
    | tag :: rest =>
      backwards? count rest (⟨⟨tag⟩, pairsOnto (words.take (2 * length.toNat)) []⟩ :: done)
    | [] => none

def ofSection (w : Window) : Except Fault (List MetadataMapping) :=
  if w.length % 4 ≠ 0 then .error (.format (.mappingSectionRagged w.length))
  else
    match (wordsOf w.bytes).reverse with
    | [] => .ok []
    | count :: words =>
      match backwards? count.toNat words [] with
      | some mappings => .ok mappings
      | none => .error (.format (.mappingsTruncated (w.length / 4)))

end MetadataMapping

/-- The payloads of a component and its mappings by the text of their tag, in the order of the
file. -/
structure Metadata where
  payloads : Window
  mappings : List (String × MetadataMapping)

namespace Metadata

def keyOnto (strings : StringTable) : List MetadataMapping → List (String × MetadataMapping) →
    Except Fault (List (String × MetadataMapping))
  | [], keyed => .ok keyed
  | mapping :: rest, keyed => do
    let text ← strings.text mapping.tag
    if (keyed.lookup text).isSome then throw (.format (.metadataTagRepeated text))
    keyOnto strings rest (keyed ++ [(text, mapping)])

def ofMappings (payloads : Window) (mappings : List MetadataMapping) (strings : StringTable) :
    Except Fault Metadata :=
  return { payloads, mappings := ← keyOnto strings mappings [] }

def mapping? (metadata : Metadata) (tag : String) : Option MetadataMapping :=
  metadata.mappings.lookup tag

/-- The blob from the payload of a node on. How long the payload is only its producer knows. -/
def payload (metadata : Metadata) (tag : String) (node : UInt32) :
    Except Fault (Option Window) :=
  match (metadata.mapping? tag).bind (·.payloadOffset? node) with
  | none => .ok none
  | some offset => return some (← metadata.payloads.sliceFrom offset.toNat)

end Metadata
end DartKernel
