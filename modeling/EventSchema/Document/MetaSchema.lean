import EventSchema.Json

/-!
# The schema of documents

What every event schema document must satisfy.
-/

set_option autoImplicit false

namespace EventSchema.Document

def metaSchema : Json := .object [
    ("$schema", .string "http://json-schema.org/draft-07/schema#"),
    ("title", .string "HogTyped event schema document"),
    ("description",
      .string ("A JSON Schema document declaring analytics events under 'events' and shared " ++
        "fragments under 'definitions'.")),
    ("type", .string "object"),
    ("properties", .object [
      ("$schema", .object [("type", .string "string")]),
      ("$id", .object [("type", .string "string")]),
      ("title", .object [("type", .string "string")]),
      ("description", .object [("type", .string "string")]),
      ("definitions", .object [
        ("type", .string "object"),
        ("additionalProperties", .object [("$ref", .string "#/definitions/fragment")])]),
      ("events", .object [
        ("type", .string "object"),
        ("additionalProperties", .object [("$ref", .string "#/definitions/eventSchema")])])]),
    ("definitions", .object [
      ("fragment", .object [("type", .array [.string "object", .string "boolean"])]),
      ("eventSchema", .object [
        ("type", .string "object"),
        ("properties", .object [
          ("$ref", .object [("type", .string "string"), ("minLength", .number (.integer 1))]),
          ("allOf", .object [
            ("type", .string "array"),
            ("minItems", .number (.integer 1)),
            ("items", .object [("$ref", .string "#/definitions/fragment")])]),
          ("type", .object [
            ("anyOf", .array [
              .object [
                ("enum", .array [
                  .string "object",
                  .string "array",
                  .string "string",
                  .string "number",
                  .string "integer",
                  .string "boolean",
                  .string "null"])],
              .object [
                ("type", .string "array"),
                ("items", .object [
                  ("enum", .array [
                    .string "object",
                    .string "array",
                    .string "string",
                    .string "number",
                    .string "integer",
                    .string "boolean",
                    .string "null"])])]])]),
          ("properties", .object [
            ("type", .string "object"),
            ("additionalProperties", .object [("$ref", .string "#/definitions/fragment")])]),
          ("required", .object [
            ("type", .string "array"),
            ("items", .object [("type", .string "string")]),
            ("uniqueItems", .bool true)]),
          ("additionalProperties", .object [("$ref", .string "#/definitions/fragment")]),
          ("description", .object [("type", .string "string")])])])])]

end EventSchema.Document
