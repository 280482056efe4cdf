import SwiftCodec.Filter.Grammar

/-!
The filters that every filter may use without defining them, in the filter language.
-/
namespace SwiftCodec

namespace Filter

structure Definition where
  name : String
  parameters : List Parameter
  body : Term

/-- The definitions in front of a filter. -/
def Term.definitions : Term → List Definition
  | .define name ps body rest => ⟨name, ps, body⟩ :: rest.definitions
  | _ => []

def preludeText : String := "
def not: if . then false else true end;
def empty: [][] as $x | .;
def isboolean: type == \"boolean\";
def isnumber: type == \"number\";
def isstring: type == \"string\";
def isarray: type == \"array\";
def isobject: type == \"object\";
def isnan: . < nan and nan < .;
def isinfinite: . == infinite or . == - infinite;
def isfinite: isnumber and (isinfinite | not);
def isnormal: isnumber and ((. == 0 or isnan or isinfinite) | not);
def select(f): if f then . else empty end;
def values: select(. != null);
def nulls: select(. == null);
def booleans: select(isboolean);
def numbers: select(isnumber);
def finites: select(isfinite);
def normals: select(isnormal);
def strings: select(isstring);
def arrays: select(isarray);
def objects: select(isobject);
def iterables: select(isarray or isobject);
def scalars: select((isarray or isobject) | not);
def recurse: ..;
def recurse(f; cond): recurse(f | select(cond));
def repeat(f): def rec: f, rec; rec;
def while(cond; f): def rec: if cond then ., (f | rec) else empty end; rec;
def until(cond; f): def rec: if cond then . else f | rec end; rec;
def range($from; $upto): range($from; $upto; 1);
def range($upto): range(0; $upto);
def first: .[0];
def last: .[-1];
def nth($n; f): last(limit($n + 1; f));
def nth($n): .[$n];
def isempty(f): first((f | false), true);
def any(f; cond): isempty(first(f | cond or empty)) | not;
def any(cond): any(.[]; cond);
def any: any(.);
def all(f; cond): isempty(first(f | cond and empty));
def all(cond): all(.[]; cond);
def all: all(.);
def in(f): . as $x | f | has($x);
def inside(f): . as $x | f | contains($x);
def map(f): [.[] | f];
def map_values(f): .[] |= f;
def add(f): reduce f as $x (null; . + $x);
def add: add(.[]);
def abs: if . < 0 then - . else . end;
def tonumber: if isnumber then . else fromjson end;
def del(f): f |= empty;
def getpath($path): if $path == [] then . else .[$path[0]] | getpath($path[1:]) end;
def paths:
  def rec($path):
    (keys_unsorted? // [])[] as $k | ($path + [$k]) as $here | $here, (.[$k] | rec($here));
  rec([]);
def paths(f): paths as $path | select(getpath($path) | f) | $path;
def leaf_paths: paths(scalars);
def walk(f): def rec: (.[]? |= rec) | f; rec;
def to_entries: [keys_unsorted[] as $k | \x7bkey: $k, value: .[$k]\x7d];
def from_entries: map(\x7b(.key): .value\x7d) | add + \x7b\x7d;
def with_entries(f): to_entries | map(f) | from_entries;
def unique_by(f): [group_by(f)[] | .[0]];
def unique: unique_by(.);
def min: min_by(.);
def max: max_by(.);
def flatten($depth):
  if $depth > 0 then map(if isarray then flatten($depth - 1) else [.] end) | add else . end;
def flatten: [recurse(arrays | .[]) | select(isarray | not)];
def transpose: [range([.[] | length] | max // 0) as $i | [.[][$i]]];
def combinations:
  if length == 0 then [] else .[0][] as $x | (.[1:] | combinations) as $rest | [$x] + $rest end;
def combinations($n): . as $v | [range($n) | $v] | combinations;
def split($s):
  if isstring and ($s | isstring) then . / $s
  else error(\"split input and separator must be strings\") end;
def join($s):
  reduce .[] as $x (null;
    (if . == null then \"\" else . + $s end) + ($x | tostring)) // \"\";
def index($x): indices($x) | .[0];
def rindex($x): indices($x) | .[-1];
def captured: map(select(.name) | \x7b(.name): .string\x7d) | add + \x7b\x7d;
def test(re; flags): matches(re; flags) | any;
def test(re): test(re; \"\");
def match(re; flags): matches(re; flags)[] | .[0] + \x7bcaptures: .[1:]\x7d;
def match(re): match(re; \"\");
def scan(re; flags): matches(re; flags)[] | .[0].string;
def scan(re): scan(re; \"\");
def capture(re; flags): matches(re; flags)[] | captured;
def capture(re): capture(re; \"\");
def split(re; flags): split_(re; flags + \"g\");
def splits(re; flags): split(re; flags)[];
def splits(re): splits(re; \"\");
def sub(re; f; flags):
  reduce split_matches(re; flags)[] as $x (\"\";
    . + if $x | isstring then $x else $x | captured | f end);
def sub(re; f): sub(re; f; \"\");
def gsub(re; f; flags): sub(re; f; \"g\" + flags);
def gsub(re; f): gsub(re; f; \"\");
def debug: .;
def inputs: empty;
def input: first(inputs);
."

/-- The definitions that stand in front of every filter, the first one outermost. -/
def prelude : List Definition :=
  ⟨"recurse", [⟨"f", false⟩], .recurse (.call "f" [])⟩ ::
    ((Term.parse preludeText).map Term.definitions).getD []

end Filter

end SwiftCodec
