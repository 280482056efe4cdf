/-!
The Swift file that generated code calls into: the names of the marker types, and the codecs of
the primitive types, of `Optional`, `Array` and `Dictionary`.
-/
namespace SwiftCodec

namespace Support

def filename : String := "JsonGen.swift"

def lines : List String := [
  "//",
  "//  JsonGen.swift",
  "//",
  "//  Support functions for code generated by swift-json-gen.",
  "//",
  "",
  "import Foundation",
  "",
  "public typealias AnyJson = AnyObject",
  "public typealias JsonObject = [String: AnyObject]",
  "public typealias JsonArray = [AnyObject]",
  "",
  "extension String \x7b",
  "  public static func decodeJson(json: AnyObject) -> String? \x7b",
  "    return json as? String",
  "  \x7d",
  "",
  "  public func encodeJson() -> AnyObject \x7b",
  "    return self",
  "  \x7d",
  "\x7d",
  "",
  "extension Bool \x7b",
  "  public static func decodeJson(json: AnyObject) -> Bool? \x7b",
  "    return json as? Bool",
  "  \x7d",
  "",
  "  public func encodeJson() -> AnyObject \x7b",
  "    return self",
  "  \x7d",
  "\x7d",
  "",
  "extension Int \x7b",
  "  public static func decodeJson(json: AnyObject) -> Int? \x7b",
  "    return json as? Int",
  "  \x7d",
  "",
  "  public func encodeJson() -> AnyObject \x7b",
  "    return self",
  "  \x7d",
  "\x7d",
  "",
  "extension UInt \x7b",
  "  public static func decodeJson(json: AnyObject) -> UInt? \x7b",
  "    return json as? UInt",
  "  \x7d",
  "",
  "  public func encodeJson() -> AnyObject \x7b",
  "    return self",
  "  \x7d",
  "\x7d",
  "",
  "extension Float \x7b",
  "  public static func decodeJson(json: AnyObject) -> Float? \x7b",
  "    return json as? Float",
  "  \x7d",
  "",
  "  public func encodeJson() -> AnyObject \x7b",
  "    return self",
  "  \x7d",
  "\x7d",
  "",
  "extension Double \x7b",
  "  public static func decodeJson(json: AnyObject) -> Double? \x7b",
  "    return json as? Double",
  "  \x7d",
  "",
  "  public func encodeJson() -> AnyObject \x7b",
  "    return self",
  "  \x7d",
  "\x7d",
  "",
  "extension Optional \x7b",
  "  public static func decodeJson(decodeWrapped: AnyObject -> Wrapped?, _ json: AnyObject) -> Wrapped? \x7b",
  "    return decodeWrapped(json)",
  "  \x7d",
  "",
  "  public func encodeJson(encodeWrapped: Wrapped -> AnyObject) -> AnyObject \x7b",
  "    return self.map(encodeWrapped) ?? NSNull()",
  "  \x7d",
  "\x7d",
  "",
  "extension Array \x7b",
  "  public static func decodeJson(decodeElement: AnyObject -> Element?, _ json: AnyObject) -> [Element]? \x7b",
  "    guard let arr = json as? [AnyObject] else \x7b",
  "      return nil",
  "    \x7d",
  "",
  "    var result: [Element] = []",
  "    for item in arr \x7b",
  "      guard let element = decodeElement(item) else \x7b",
  "        return nil",
  "      \x7d",
  "      result.append(element)",
  "    \x7d",
  "",
  "    return result",
  "  \x7d",
  "",
  "  public func encodeJson(encodeElement: Element -> AnyObject) -> [AnyObject] \x7b",
  "    return self.map(encodeElement)",
  "  \x7d",
  "\x7d",
  "",
  "extension Dictionary \x7b",
  "  public static func decodeJson(decodeKey: AnyObject -> Key?, _ decodeValue: AnyObject -> Value?, _ json: AnyObject) -> [Key: Value]? \x7b",
  "    guard let dict = json as? [String: AnyObject] else \x7b",
  "      return nil",
  "    \x7d",
  "",
  "    var result: [Key: Value] = [:]",
  "    for (key, val) in dict \x7b",
  "      guard let k = decodeKey(key), v = decodeValue(val) else \x7b",
  "        return nil",
  "      \x7d",
  "      result[k] = v",
  "    \x7d",
  "",
  "    return result",
  "  \x7d",
  "",
  "  public func encodeJson(encodeKey: Key -> AnyObject, _ encodeValue: Value -> AnyObject) -> [String: AnyObject] \x7b",
  "    var dict: [String: AnyObject] = [:]",
  "    for (key, val) in self \x7b",
  "      if let k = encodeKey(key) as? String \x7b",
  "        dict[k] = encodeValue(val)",
  "      \x7d",
  "    \x7d",
  "",
  "    return dict",
  "  \x7d",
  "\x7d"]

def source : String := String.intercalate "\n" lines ++ "\n"

end Support

end SwiftCodec
